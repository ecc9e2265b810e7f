/-
  Babel/Replay.lean --- no authenticated datagram is accepted twice.

  Honest nodes share keys; everything else is the network, which drops, duplicates,
  delays and reorders their datagrams and invents whatever it likes.  The MAC is
  unforgeable: what passes the MAC test was sent by an honest node.  Nonces never repeat
  and the indices of one node never repeat.
-/
import LibRouting.Babel.Auth
import LibRouting.Foundation.Run

set_option autoImplicit false

namespace LibRouting.Babel

open Foundation Core BabelAuthInterface ReceiverPc BabelAuthAction List

/-! ## Nodes and network -/

/-- A datagram up to its trailer: what the MAC covers. -/
structure Datagram where
  header : BabelPseudoHeader
  region : Bytes
  deriving DecidableEq, Repr

namespace Datagram

/-- The body elements a receiver reads. -/
def tlvs (d : Datagram) : List BodyTlv := (bodyTlvs (d.region.drop bodyOffset)).1

/-- Packet counter and index. -/
def counter (d : Datagram) : Option (UInt32 × Bytes) := d.tlvs.findSome? BodyTlv.packetCounter

/-- The nonces it echoes. -/
def replies (d : Datagram) : List Bytes := d.tlvs.filterMap BodyTlv.challengeReply

/-- The nonces it asks to be echoed. -/
def requests (d : Datagram) : List Bytes := d.tlvs.filterMap BodyTlv.challengeRequest

end Datagram

/-- An honest node, with what it has done so far. -/
structure Node where
  iface : BabelAuthInterface
  /-- The indices it has used. -/
  indices : List Bytes
  /-- The nonces it was asked to echo and may put into Challenge Replies. -/
  owed : List Bytes := []
  /-- The nonces of its own challenges. -/
  asked : List Bytes := []
  /-- The datagrams it has accepted, latest first. -/
  accepted : List Datagram := []

/-- Authenticated nodes and the network between them. -/
structure Net where
  nodes : IpAddr → Node
  /-- What the honest nodes have sent, latest first. -/
  sent : List Datagram := []
  /-- The nonces drawn so far. -/
  nonces : List Bytes := []

/-- What may happen in the network. -/
inductive NetEvent where
  /-- The node authenticates and sends a packet; `fresh` is the next index it would draw. -/
  | transmit (packet : Bytes) (header : BabelPseudoHeader) (fresh : Bytes)
  /-- A datagram reaches the node; `fresh` is the next nonce it would draw. -/
  | deliver (node : IpAddr) (packet : Bytes) (header : BabelPseudoHeader) (now : UInt64)
      (fresh : Bytes)
  | gc (node : IpAddr) (now : UInt64)
  /-- The node starts over with a new index. -/
  | restart (node : IpAddr) (index : Bytes) (pc : UInt32)

/-- The nonce of a challenge reply. -/
def BabelAuthAction.reply? : BabelAuthAction → Option Bytes
  | .sendChallengeReply nonce => some nonce
  | .sendChallengeRequest _ => none

/-- The nonce of a challenge request. -/
def BabelAuthAction.request? : BabelAuthAction → Option Bytes
  | .sendChallengeRequest nonce => some nonce
  | .sendChallengeReply _ => none

namespace Net

section

variable (mac : MacFunction) (n : Net) (node : Node)

/-- Replaces one node. -/
def setNode (a : IpAddr) (node : Node) : Net :=
  { n with nodes := fun b => if b = a then node else n.nodes b }

/-- A body an honest node sends: well formed, without packet counters of its own, its
challenges and replies the ones it owes. -/
def honestBody (body : Bytes) : Bool :=
  let (tlvs, ok) := bodyTlvs body
  ok && (tlvs.findSome? BodyTlv.packetCounter).isNone &&
    (tlvs.filterMap BodyTlv.challengeReply).all (node.owed.contains ·) &&
    (tlvs.filterMap BodyTlv.challengeRequest).all (node.asked.contains ·)

/-- The index drawn on overflow is new. -/
def freshIndex (fresh : Bytes) : Bool :=
  node.iface.sendPc ≠ 0xffffffff ||
    (fresh.length == node.iface.config.indexLen && !node.indices.contains fresh)

/-- The MAC is unforgeable: what passes the MAC test was sent. -/
def unforged (packet : Bytes) (header : BabelPseudoHeader) : Bool :=
  match node.iface.check mac packet header with
  | .verified region => n.sent.contains ⟨header, region⟩
  | _ => true

/-- The datagram, if it is accepted. -/
def acceptedDatagram (packet : Bytes) (header : BabelPseudoHeader) (out : BabelVerifyOutcome) :
    List Datagram :=
  match node.iface.check mac packet header, out.accepted with
  | .verified region, some _ | .unverified region, some _ => [⟨header, region⟩]
  | _, _ => []

/-- A node signs a packet; the network keeps it for good. -/
def transmit (packet : Bytes) (header : BabelPseudoHeader) (fresh : Bytes) : Option Net :=
  let node := n.nodes header.source
  match validatePacket packet with
  | .error _ => none
  | .ok bodyLen =>
    if honestBody node ((packet.drop bodyOffset).take bodyLen) && freshIndex node fresh then
      let (iface, result) := node.iface.authenticatePacket mac packet header fresh
      let region := iface.authenticatedRegion packet bodyLen
      let node' : Node :=
        { node with iface := iface, indices := iface.sendIndex :: node.indices }
      match result with
      | .error _ => some (n.setNode header.source node')
      | .ok _ =>
        some { n.setNode header.source node' with sent := ⟨header, region⟩ :: n.sent }
    else none

/-- A packet that nobody forged is verified by `a`. -/
def deliver (a : IpAddr) (packet : Bytes) (header : BabelPseudoHeader) (now : UInt64)
    (fresh : Bytes) : Option Net :=
  let node := n.nodes a
  if n.unforged mac node packet header && !n.nonces.contains fresh then
    let (iface, out) := node.iface.verify mac packet header now fresh
    let asked := out.actions.filterMap request?
    let node' : Node :=
      { node with
        iface := iface
        owed := out.actions.filterMap reply? ++ node.owed
        asked := asked ++ node.asked
        accepted := acceptedDatagram mac node packet header out ++ node.accepted }
    some { n.setNode a node' with nonces := asked ++ n.nonces }
  else none

/-- One event; `none` where it cannot happen. -/
def step : NetEvent → Option Net
  | .transmit packet header fresh => n.transmit mac packet header fresh
  | .deliver a packet header now fresh => n.deliver mac a packet header now fresh
  | .gc a now =>
    let node := n.nodes a
    some (n.setNode a { node with iface := node.iface.gc now })
  | .restart a index pc =>
    let node := n.nodes a
    if node.indices.contains index then none
    else
      match BabelAuthInterface.new node.iface.config index pc with
      | .error _ => none
      | .ok iface =>
          some (n.setNode a { node with iface := iface, indices := index :: node.indices })

end

/-- Nothing has happened yet: every node has a new interface that requires
authentication. -/
structure Initial (n : Net) : Prop where
  iface : ∀ a, ∃ config index pc,
    BabelAuthInterface.new config index pc = .ok (n.nodes a).iface ∧
      config.acceptUnauthenticated = false ∧ (n.nodes a).indices = [index]
  quiet : ∀ a, (n.nodes a).owed = [] ∧ (n.nodes a).asked = [] ∧ (n.nodes a).accepted = []
  sent : n.sent = []
  nonces : n.nonces = []

end Net
variable {config : BabelAuthConfig} {s : ReceiverPc}

/-! ## One neighbour of one node -/

/-- The counter state a datagram is checked against. -/
def NeighbourAuth.classPc (config : BabelAuthConfig) (d : Datagram) (e : NeighbourAuth) :
    ReceiverPc :=
  if isMulticast d.header.destination || !config.splitUnicastMulticast then e.pcm else e.pcu

/-- The counter states have the configured form. -/
def Shaped (config : BabelAuthConfig) (s : ReceiverPc) : Prop :=
  ∀ pc, s.resetTo pc = (ReceiverPc.new config.pcWindow).resetTo pc

/-- What the entry for neighbour `a` says, given what the node has accepted and what has
been sent. -/
structure EntryOk (config : BabelAuthConfig) (accepted sent : List Datagram)
    (nonces : List Bytes) (a : IpAddr) (e : NeighbourAuth) : Prop where
  shapedM : Shaped config e.pcm
  shapedU : Shaped config e.pcu
  /-- Under the recorded index, accepted counters are rejected. -/
  known : ∀ d ∈ accepted, d.header.source = a → ∀ q index, d.counter = some (q, index) →
    e.index = some index → (e.classPc config d).accepts q = false
  drawn : ∀ p, e.challenge = some p → p.nonce ∈ nonces
  /-- No accepted datagram answers the challenge. -/
  unanswered : ∀ p, e.challenge = some p → ∀ d ∈ accepted, d.header.source = a →
    p.nonce ∉ d.replies
  /-- An answer under an index that is not the recorded one is newer than everything
  accepted under that index. -/
  newer : ∀ p, e.challenge = some p → ∀ d ∈ accepted, d.header.source = a →
    ∀ q index, d.counter = some (q, index) → e.index = some index ∨
      ∀ d' ∈ sent, d'.header.source = a → ∀ q', d'.counter = some (q', index) →
        p.nonce ∈ d'.replies → q < q'

theorem shaped_new (config : BabelAuthConfig) : Shaped config (.new config.pcWindow) :=
  fun _ => rfl

theorem Shaped.commit (h : Shaped config s) (pc : UInt32) : Shaped config (s.commit pc) := by
  intro q
  rw [← h q]
  cases s with
  | strict v => rfl
  | window highest seen =>
    simp only [commit]
    split_ifs with hlt hbig
    · simp [resetTo]
    · simp [resetTo]
    · have hlen : (seen.drop ((ReceiverPc.slot highest seen.length pc).toNat + 1 - seen.length) ++
          replicate ((ReceiverPc.slot highest seen.length pc).toNat + 1 - seen.length)
            false).length = seen.length := by
        simp
        omega
      simp only [resetTo, setLast_length, hlen]

theorem Shaped.resetTo (h : Shaped config s) (pc : UInt32) : Shaped config (s.resetTo pc) := by
  intro q
  rw [← h q]
  cases s with
  | strict v => rfl
  | window highest seen => simp [resetTo]

namespace EntryOk

variable {config : BabelAuthConfig} {accepted sent : List Datagram} {nonces : List Bytes}
  {a : IpAddr} {e : NeighbourAuth} {e' : NeighbourAuth} {d : Datagram} {pc : UInt32} {index : Bytes}

theorem new (config : BabelAuthConfig) (accepted sent : List Datagram) (nonces : List Bytes)
    (a : IpAddr) : EntryOk config accepted sent nonces a (.new config.pcWindow) where
  shapedM := shaped_new config
  shapedU := shaped_new config
  known _ _ _ _ _ _ h := nomatch h
  drawn _ h := nomatch h
  unanswered _ h := nomatch h
  newer _ h := nomatch h

section

variable (h : EntryOk config accepted sent nonces a e)
include h

/-- The index is kept, the challenge may be gone, and what was rejected still is. -/
theorem keep (hindex : e'.index = e.index) (hshapedM : Shaped config e'.pcm)
    (hshapedU : Shaped config e'.pcu)
    (hrejected : ∀ d q, (e.classPc config d).accepts q = false →
      (e'.classPc config d).accepts q = false)
    (hchallenge : ∀ p, e'.challenge = some p → e.challenge = some p) :
    EntryOk config accepted sent nonces a e' where
  shapedM := hshapedM
  shapedU := hshapedU
  known d hd ha q index hq hi := hrejected d q (h.known d hd ha q index hq (hindex ▸ hi))
  drawn p hp := h.drawn p (hchallenge p hp)
  unanswered p hp := h.unanswered p (hchallenge p hp)
  newer p hp d hd ha q index hq := by
    rw [hindex]
    exact h.newer p (hchallenge p hp) d hd ha q index hq

theorem moreNonces (more : List Bytes) :
    EntryOk config accepted sent (more ++ nonces) a e :=
  { h with drawn := fun p hp => mem_append_right _ (h.drawn p hp) }

theorem send {d' : Datagram}
    (hnewer : ∀ d ∈ accepted, d.header.source = d'.header.source →
      ∀ q q' index, d.counter = some (q, index) → d'.counter = some (q', index) → q < q') :
    EntryOk config accepted (d' :: sent) nonces a e := by
  refine { h with newer := fun p hp d hd ha q index hq => ?_ }
  rcases h.newer p hp d hd ha q index hq with hknown | hold
  · exact .inl hknown
  refine .inr fun d'' hd'' ha'' q' hq' hreply => ?_
  rcases mem_cons.mp hd'' with rfl | hd''
  · exact hnewer d hd (ha.trans ha''.symm) q q' index hq hq'
  · exact hold d'' hd'' ha'' q' hq' hreply

theorem acceptOther (hne : d.header.source ≠ a) :
    EntryOk config (d :: accepted) sent nonces a e := by
  have hold : ∀ {d' : Datagram}, d' ∈ d :: accepted → d'.header.source = a → d' ∈ accepted := by
    intro d' hd' ha
    rcases mem_cons.mp hd' with rfl | hd'
    · exact absurd ha hne
    · exact hd'
  exact ⟨h.shapedM, h.shapedU, fun d' hd' ha => h.known d' (hold hd' ha) ha, h.drawn,
    fun p hp d' hd' ha => h.unanswered p hp d' (hold hd' ha) ha,
    fun p hp d' hd' ha => h.newer p hp d' (hold hd' ha) ha⟩

/-- A challenge goes out with a nonce that nothing sent so far echoes. -/
theorem challenge {fresh : Bytes} {t : UInt64} {r : Option UInt64}
    (hsent : ∀ d ∈ accepted, d ∈ sent) (hfresh : ∀ d ∈ sent, fresh ∉ d.replies) :
    EntryOk config accepted sent (fresh :: nonces) a
      { e with challenge := some ⟨fresh, t⟩, lastRequestMs := r } := by
  refine ⟨h.shapedM, h.shapedU, h.known, ?_, ?_, ?_⟩
  · rintro p ⟨⟩
    exact mem_cons_self
  · rintro p ⟨⟩ d hd -
    exact hfresh d (hsent d hd)
  · rintro p ⟨⟩ d hd ha q index hq
    exact .inr fun d' hd' _ q' _ hreply => absurd hreply (hfresh d' hd')

/-- A datagram under the recorded index is accepted, and rejected from now on. -/
theorem cons (hcounter : d.counter = some (pc, index)) (hindex : e.index = some index)
    (hself : (e.classPc config d).accepts pc = false)
    (hunanswered : ∀ p, e.challenge = some p → p.nonce ∉ d.replies) :
    EntryOk config (d :: accepted) sent nonces a e := by
  refine { h with
    known := forall_mem_cons.mpr ⟨fun _ q index₀ hq _ => ?_, h.known⟩
    unanswered := fun p hp =>
      forall_mem_cons.mpr ⟨fun _ => hunanswered p hp, h.unanswered p hp⟩
    newer := fun p hp =>
      forall_mem_cons.mpr ⟨fun _ q index₀ hq => .inl ?_, h.newer p hp⟩ }
  · cases hcounter.symm.trans hq
    exact hself
  · cases hcounter.symm.trans hq
    exact hindex

/-- A challenge was answered: index and counters start over. -/
theorem reset (hcounter : d.counter = some (pc, index)) (hnone : e.challenge = none)
    (hcovers : ∀ d₀ ∈ accepted, d₀.header.source = a → ∀ q, d₀.counter = some (q, index) →
      ((ReceiverPc.new config.pcWindow).resetTo pc).accepts q = false)
    (now : UInt64) :
    EntryOk config (d :: accepted) sent nonces a
      { e with index := some index, pcm := e.pcm.resetTo pc, pcu := e.pcu.resetTo pc
               lastActivityMs := now } := by
  have hno : ∀ p, e.challenge ≠ some p := by simp [hnone]
  have hclass (d₀ : Datagram) : NeighbourAuth.classPc config d₀
      { e with index := some index, pcm := e.pcm.resetTo pc, pcu := e.pcu.resetTo pc
               lastActivityMs := now } = (ReceiverPc.new config.pcWindow).resetTo pc := by
    unfold NeighbourAuth.classPc
    split
    · exact h.shapedM pc
    · exact h.shapedU pc
  refine cons ⟨h.shapedM.resetTo pc, h.shapedU.resetTo pc, ?_, fun p hp => absurd hp (hno p),
    fun p hp => absurd hp (hno p), fun p hp => absurd hp (hno p)⟩ hcounter rfl
    (hclass d ▸ accepts_resetTo_self _ _) fun p hp => absurd hp (hno p)
  rintro d₀ hd₀ ha q index' hq ⟨⟩
  rw [hclass]
  exact hcovers d₀ hd₀ ha q hq

end

end EntryOk

/-- A counted datagram was acceptable in its class, and the entry then rejects it and
whatever it rejected before. -/
theorem countPacket_spec {s s' : BabelAuthInterface} {d : Datagram} {e : NeighbourAuth}
    {pc : UInt32} {now : UInt64} (h : s.countPacket d.header e pc now = some s') :
    (e.classPc s.config d).accepts pc = true ∧
      ∃ e', s' = s.setEntry d.header.source e' ∧ e'.index = e.index ∧
        e'.challenge = e.challenge ∧
        (Shaped s.config e.pcm → Shaped s.config e'.pcm) ∧
        (Shaped s.config e.pcu → Shaped s.config e'.pcu) ∧
        (e'.classPc s.config d).accepts pc = false ∧
        ∀ d₀ q, (e.classPc s.config d₀).accepts q = false →
          (e'.classPc s.config d₀).accepts q = false := by
  revert h
  fun_cases countPacket s d.header e pc now with
  | case2 | case4 => rintro ⟨⟩
  | case1 hclass haccepts =>
    rintro ⟨⟩
    have hd : ∀ x : NeighbourAuth, x.classPc s.config d = x.pcm := fun x => if_pos hclass
    refine ⟨by rw [hd]; exact haccepts, _, rfl, rfl, rfl, fun hs => hs.commit pc, ?_, ?_, ?_⟩
    · intro hs
      dsimp only
      split
      · exact hs
      · exact hs.commit pc
    · rw [hd]
      exact accepts_commit_self _ haccepts
    · intro d₀ q hq
      unfold NeighbourAuth.classPc at hq ⊢
      split_ifs at hq ⊢ with hclass₀ hsplit
      · exact accepts_commit_of_rejected _ haccepts hq
      · exact accepts_commit_of_rejected _ haccepts hq
      · exact hq
      · simp_all
  | case3 hclass haccepts =>
    rintro ⟨⟩
    have hd : ∀ x : NeighbourAuth, x.classPc s.config d = x.pcu := fun x => if_neg hclass
    refine ⟨by rw [hd]; exact haccepts, _, rfl, rfl, rfl, id, fun hs => hs.commit pc, ?_, ?_⟩
    · rw [hd]
      exact accepts_commit_self _ haccepts
    · intro d₀ q hq
      unfold NeighbourAuth.classPc at hq ⊢
      split_ifs at hq ⊢
      · exact hq
      · exact accepts_commit_of_rejected _ haccepts hq

/-! ## The network -/

namespace Net

/-- What holds of a single node. -/
structure NodeOk (sent : List Datagram) (nonces : List Bytes) (node : Node) : Prop where
  strict : node.iface.config.acceptUnauthenticated = false
  indexLen : node.iface.config.indexLen ≤ maxIndexLen
  sendIndex : node.iface.sendIndex.length ≤ maxIndexLen
  inUse : node.iface.sendIndex ∈ node.indices
  owed : ∀ x ∈ node.owed, x ∈ nonces
  asked : ∀ x ∈ node.asked, x ∈ nonces
  accepted : ∀ d ∈ node.accepted, d ∈ sent
  once : node.accepted.Nodup
  entries : ∀ a, EntryOk node.iface.config node.accepted sent nonces a (node.iface.entry a)

/-- What holds in every reachable network. -/
structure Inv (n : Net) : Prop where
  node : ∀ a, NodeOk n.sent n.nonces (n.nodes a)
  /-- Every datagram carries a counter its sender has reached under that index. -/
  counted : ∀ d ∈ n.sent, ∃ pc index, d.counter = some (pc, index) ∧
    index ∈ (n.nodes d.header.source).indices ∧
    (index = (n.nodes d.header.source).iface.sendIndex →
      pc ≤ (n.nodes d.header.source).iface.sendPc)
  ordered : n.sent.Pairwise fun later earlier => later.header.source = earlier.header.source →
    ∀ q q' index, later.counter = some (q, index) → earlier.counter = some (q', index) → q' < q
  replies : ∀ d ∈ n.sent, ∀ x ∈ d.replies, x ∈ n.nonces
  requests : ∀ d ∈ n.sent, ∀ x ∈ d.requests, x ∈ n.nonces

theorem inv_initial {n : Net} (h : Initial n) : Inv n := by
  have hnew : ∀ a, (n.nodes a).iface.config.acceptUnauthenticated = false ∧
      (n.nodes a).iface.config.indexLen ≤ maxIndexLen ∧
      (n.nodes a).iface.sendIndex.length ≤ maxIndexLen ∧
      (n.nodes a).iface.sendIndex ∈ (n.nodes a).indices ∧ (n.nodes a).iface.neighbours = ∅ := by
    intro a
    obtain ⟨config, index, pc, hok, hstrict, hindices⟩ := h.iface a
    obtain ⟨hlen, hindex, hiface⟩ := new_ok hok
    rw [hiface, hindices]
    exact ⟨hstrict, hlen, hindex, by simp, rfl⟩
  refine ⟨fun a => ?_, by simp [h.sent], by simp [h.sent], by simp [h.sent], by simp [h.sent]⟩
  obtain ⟨hstrict, hlen, hindex, hinUse, hempty⟩ := hnew a
  obtain ⟨howed, hasked, haccepted⟩ := h.quiet a
  refine ⟨hstrict, hlen, hindex, hinUse, by simp [howed], by simp [hasked], by simp [haccepted],
    by simp [haccepted], fun b => ?_⟩
  have hentry : (n.nodes a).iface.entry b = .new (n.nodes a).iface.config.pcWindow :=
    entry_of_none _ _ (by rw [hempty]; simp)
  rw [hentry]
  exact .new _ _ _ _ _

section Steps

variable {n : Net} {a : IpAddr} {node' : Node} {node : Node} {fresh : Bytes}

@[simp] theorem setNode_self : (n.setNode a node').nodes a = node' := if_pos rfl

theorem setNode_other {b : IpAddr} (h : b ≠ a) : (n.setNode a node').nodes b = n.nodes b :=
  if_neg h

theorem NodeOk.moreNonces {sent : List Datagram} {nonces : List Bytes} (h : NodeOk sent nonces node)
    (more : List Bytes) : NodeOk sent (more ++ nonces) node :=
  { h with
    owed := fun x hx => mem_append_right _ (h.owed x hx)
    asked := fun x hx => mem_append_right _ (h.asked x hx)
    entries := fun a => (h.entries a).moreNonces more }

/-- One node changes.  It may move on to a later counter or an index it has not used. -/
theorem Inv.replace (h : Inv n) (nonces : List Bytes)
    (hnode : NodeOk n.sent (nonces ++ n.nonces) node')
    (hindices : ∀ x ∈ (n.nodes a).indices, x ∈ node'.indices)
    (hpc : node'.iface.sendIndex ∈ (n.nodes a).indices →
      node'.iface.sendIndex = (n.nodes a).iface.sendIndex ∧
        (n.nodes a).iface.sendPc ≤ node'.iface.sendPc) :
    Inv { n.setNode a node' with nonces := nonces ++ n.nonces } := by
  refine ⟨fun b => ?_, fun d hd => ?_, h.ordered,
    fun d hd x hx => mem_append_right _ (h.replies d hd x hx),
    fun d hd x hx => mem_append_right _ (h.requests d hd x hx)⟩
  · dsimp only
    by_cases hb : b = a
    · subst hb
      rw [setNode_self]
      exact hnode
    · rw [setNode_other hb]
      exact (h.node b).moreNonces nonces
  · obtain ⟨pc, index, hcounter, hmem, hle⟩ := h.counted d hd
    refine ⟨pc, index, hcounter, ?_⟩
    dsimp only
    by_cases hsrc : d.header.source = a
    · rw [hsrc] at hmem hle ⊢
      rw [setNode_self]
      refine ⟨hindices _ hmem, fun heq => ?_⟩
      obtain ⟨hsame, hpcle⟩ := hpc (heq ▸ hmem)
      exact UInt32.le_trans (hle (heq.trans hsame)) hpcle
    · rw [setNode_other hsrc]
      exact ⟨hmem, hle⟩

/-- One node changes its interface, and may forget neighbours. -/
theorem Inv.update (h : Inv n) {iface : BabelAuthInterface} {indices : List Bytes}
    (hconfig : iface.config = (n.nodes a).iface.config)
    (hlen : iface.sendIndex.length ≤ maxIndexLen) (hinUse : iface.sendIndex ∈ indices)
    (hindices : ∀ x ∈ (n.nodes a).indices, x ∈ indices)
    (hpc : iface.sendIndex ∈ (n.nodes a).indices →
      iface.sendIndex = (n.nodes a).iface.sendIndex ∧ (n.nodes a).iface.sendPc ≤ iface.sendPc)
    (hentries : ∀ b, iface.entry b = (n.nodes a).iface.entry b ∨
      iface.entry b = .new iface.config.pcWindow) :
    Inv (n.setNode a { n.nodes a with iface := iface, indices := indices }) := by
  have hold := h.node a
  refine h.replace [] { hold with
    strict := hconfig ▸ hold.strict, indexLen := hconfig ▸ hold.indexLen, sendIndex := hlen
    inUse := hinUse, entries := fun c => ?_ } hindices hpc
  rcases hentries c with heq | heq
  · rw [heq, hconfig]
    exact hold.entries c
  · rw [heq]
    exact .new _ _ _ _ _

/-- A datagram goes out under the present counter of its node, above all earlier ones. -/
theorem Inv.send (h : Inv n) {d : Datagram}
    (hcounter : d.counter = some ((n.nodes d.header.source).iface.sendPc,
      (n.nodes d.header.source).iface.sendIndex))
    (hnew : ∀ d₀ ∈ n.sent, d₀.header.source = d.header.source → ∀ q,
      d₀.counter = some (q, (n.nodes d.header.source).iface.sendIndex) →
      q < (n.nodes d.header.source).iface.sendPc)
    (hreplies : ∀ x ∈ d.replies, x ∈ n.nonces) (hrequests : ∀ x ∈ d.requests, x ∈ n.nonces) :
    Inv { n with sent := d :: n.sent } := by
  refine ⟨fun b => ?_, forall_mem_cons.mpr ⟨?_, h.counted⟩, pairwise_cons.mpr ⟨?_, h.ordered⟩,
    forall_mem_cons.mpr ⟨hreplies, h.replies⟩, forall_mem_cons.mpr ⟨hrequests, h.requests⟩⟩
  · have hold := h.node b
    refine { hold with
      accepted := fun d₀ hd₀ => mem_cons_of_mem _ (hold.accepted d₀ hd₀), entries := fun c => ?_ }
    refine (hold.entries c).send fun d₀ hd₀ hsrc q q' index hq hq' => ?_
    rw [hcounter] at hq'
    cases hq'
    exact hnew d₀ (hold.accepted d₀ hd₀) hsrc q hq
  · exact ⟨_, _, hcounter, (h.node _).inUse, fun _ => UInt32.le_refl _⟩
  · intro d₀ hd₀ hsrc q q' index hq hq'
    rw [hcounter] at hq
    cases hq
    exact hnew d₀ hd₀ hsrc.symm q' hq'

/-- A node takes in a datagram: it owes replies, asks for some and may accept it. -/
theorem Inv.receive (h : Inv n) (owed asked : List Bytes) (accepted : List Datagram)
    {iface : BabelAuthInterface} (hsender : SameSender (n.nodes a).iface iface)
    (howed : ∀ x ∈ owed, x ∈ n.nonces)
    (hsent : ∀ d ∈ accepted, d ∈ n.sent) (honce : (accepted ++ (n.nodes a).accepted).Nodup)
    (hentries : ∀ b, EntryOk (n.nodes a).iface.config (accepted ++ (n.nodes a).accepted) n.sent
      (asked ++ n.nonces) b (iface.entry b)) :
    Inv { n.setNode a { n.nodes a with
            iface := iface
            owed := owed ++ (n.nodes a).owed
            asked := asked ++ (n.nodes a).asked
            accepted := accepted ++ (n.nodes a).accepted } with
          nonces := asked ++ n.nonces } := by
  have hold := (h.node a).moreNonces asked
  obtain ⟨hconfig, hindex, hpc⟩ := hsender
  exact h.replace asked ⟨hconfig ▸ hold.strict, hconfig ▸ hold.indexLen, hindex ▸ hold.sendIndex,
    hindex ▸ hold.inUse,
    forall_mem_append.mpr ⟨fun x hx => mem_append_right _ (howed x hx), hold.owed⟩,
    forall_mem_append.mpr ⟨fun x hx => mem_append_left _ hx, hold.asked⟩,
    forall_mem_append.mpr ⟨hsent, hold.accepted⟩, honce, hconfig ▸ hentries⟩
    (fun _ hx => hx) fun _ => ⟨hindex, hpc ▸ UInt32.le_refl _⟩

/-- The outgoing counter moves up, or the index is one that was not used. -/
theorem advance_spec (h : freshIndex node fresh = true) :
    (node.iface.advance fresh).config = node.iface.config ∧
      (∀ b, (node.iface.advance fresh).entry b = node.iface.entry b) ∧
      (((node.iface.advance fresh).sendIndex = node.iface.sendIndex ∧
          node.iface.sendPc < (node.iface.advance fresh).sendPc) ∨
        ((node.iface.advance fresh).sendIndex ∉ node.indices ∧
          (node.iface.advance fresh).sendIndex.length = node.iface.config.indexLen)) := by
  fun_cases advance node.iface fresh with
  | case1 hmax =>
    refine ⟨rfl, fun _ => rfl, .inr ?_⟩
    simp only [freshIndex, hmax, Bool.or_eq_true, Bool.and_eq_true, beq_iff_eq] at h
    rcases h with h | ⟨hlen, hnew⟩
    · simp at h
    · exact ⟨by simpa using hnew, hlen⟩
  | case2 hmax =>
    refine ⟨rfl, fun _ => rfl, .inl ⟨rfl, ?_⟩⟩
    have hlt := node.iface.sendPc.toNat_lt
    have hne : node.iface.sendPc.toNat ≠ 2 ^ 32 - 1 := fun heq =>
      hmax (UInt32.toNat_inj.mp heq)
    rw [UInt32.lt_iff_toNat_lt, UInt32.toNat_add]
    simp only [UInt32.reduceToNat]
    omega

/-- The interface after authentication is the old one or the advanced one; it is the
advanced one when a packet comes out. -/
theorem authenticatePacket_cases (mac : MacFunction) (s : BabelAuthInterface) (packet : Bytes)
    (header : BabelPseudoHeader) (fresh : Bytes) :
    (∃ e, s.authenticatePacket mac packet header fresh = (s, .error e)) ∨
      ∃ r, s.authenticatePacket mac packet header fresh = (s.advance fresh, r) := by
  fun_cases authenticatePacket mac s packet header fresh with
  | case1 | case2 => exact .inl ⟨_, rfl⟩
  | case3 | case4 => exact .inr ⟨_, rfl⟩

theorem inv_transmit (h : Inv n) {mac : MacFunction} {packet : Bytes} {header : BabelPseudoHeader}
    {n' : Net} (hstep : n.transmit mac packet header fresh = some n') : Inv n' := by
  unfold transmit at hstep
  split at hstep
  · cases hstep
  rename_i bodyLen hpacket
  obtain ⟨hguard, hstep⟩ := Option.ite_none_right_eq_some.mp hstep
  rw [Bool.and_eq_true] at hguard
  obtain ⟨hbody, hfresh⟩ := hguard
  have hold := h.node header.source
  rcases authenticatePacket_cases mac (n.nodes header.source).iface packet header fresh with
    ⟨e, hauth⟩ | ⟨r, hauth⟩
  · rw [hauth] at hstep
    cases hstep
    exact h.update rfl hold.sendIndex mem_cons_self (fun x hx => mem_cons_of_mem _ hx)
      (fun _ => ⟨rfl, UInt32.le_refl _⟩) fun b => .inl rfl
  · obtain ⟨hconfig, hentry, hmoved⟩ := advance_spec hfresh
    set s' := (n.nodes header.source).iface.advance fresh with hs'
    have hlen : s'.sendIndex.length ≤ maxIndexLen := by
      rcases hmoved with ⟨hsame, -⟩ | ⟨-, hlen⟩
      · rw [hsame]
        exact hold.sendIndex
      · rw [hlen]
        exact hold.indexLen
    set node' : Node := { n.nodes header.source with
      iface := s', indices := s'.sendIndex :: (n.nodes header.source).indices } with hnode'
    have hmid : Inv (n.setNode header.source node') := by
      refine h.update hconfig hlen mem_cons_self (fun x hx => mem_cons_of_mem _ hx)
        (fun hmem => ?_) fun b => .inl (hentry b)
      rcases hmoved with ⟨hsame, hlt⟩ | ⟨hnew, -⟩
      · exact ⟨hsame, UInt32.le_of_lt hlt⟩
      · exact absurd hmem hnew
    rw [hauth] at hstep
    cases r with
    | error e =>
      cases hstep
      exact hmid
    | ok bytes =>
      cases hstep
      simp only [honestBody, Bool.and_eq_true, all_eq_true, contains_iff_mem,
        Option.isNone_iff_eq_none] at hbody
      obtain ⟨⟨⟨hread, hnopc⟩, hreplies⟩, hrequests⟩ := hbody
      have htlvs := bodyTlvs_authenticatedRegion hlen hpacket hread
      set d : Datagram := ⟨header, s'.authenticatedRegion packet bodyLen⟩ with hd
      have hdt : d.tlvs = _ := htlvs
      have hdcounter : d.counter = some (s'.sendPc, s'.sendIndex) := by
        rw [Datagram.counter, hdt, findSome?_append, hnopc]
        simp [packetCounter_counterTlv]
      have hself : (n.setNode header.source node').nodes d.header.source = node' := setNode_self
      refine hmid.send (by rw [hself]; exact hdcounter) ?_ ?_ ?_
      · intro d₀ hd₀ hsrc q hq
        rw [hself] at hq ⊢
        obtain ⟨pc, index, hcounter, hmem, hle⟩ := h.counted d₀ hd₀
        rw [hcounter] at hq
        cases hq
        rw [hsrc] at hmem hle
        rcases hmoved with ⟨hsame, hlt⟩ | ⟨hnew, -⟩
        · exact UInt32.lt_of_le_of_lt (hle hsame) hlt
        · exact absurd hmem hnew
      · rw [Datagram.replies, hdt, filterMap_append, forall_mem_append]
        exact ⟨fun x hx => hold.owed x (hreplies x hx),
          by simp [counterTlv, BodyTlv.challengeReply, pcTlv, challengeReplyTlv]⟩
      · rw [Datagram.requests, hdt, filterMap_append, forall_mem_append]
        exact ⟨fun x hx => hold.asked x (hrequests x hx),
          by simp [counterTlv, BodyTlv.challengeRequest, pcTlv, challengeRequestTlv]⟩

/-- What holds of every entry of an interface. -/
def EntriesOk (config : BabelAuthConfig) (accepted sent : List Datagram) (nonces : List Bytes)
    (s : BabelAuthInterface) : Prop :=
  ∀ b, EntryOk config accepted sent nonces b (s.entry b)

section Entries

variable {config : BabelAuthConfig} {accepted sent : List Datagram} {nonces : List Bytes}
  {s s' : BabelAuthInterface} {peer : IpAddr}

theorem entriesOk_setEntry {e : NeighbourAuth}
    (h : ∀ b, b ≠ peer → EntryOk config accepted sent nonces b (s.entry b))
    (he : EntryOk config accepted sent nonces peer e) :
    EntriesOk config accepted sent nonces (s.setEntry peer e) := by
  intro b
  by_cases hb : b = peer
  · subst hb
    rw [setEntry_entry]
    exact he
  · rw [setEntry_entry_other _ _ _ hb]
    exact h b hb

section

variable (h : EntriesOk config accepted sent nonces s)
include h

theorem EntriesOk.touch (ht : BabelAuthInterface.Touch peer s s') :
    EntriesOk config accepted sent nonces s' := by
  intro b
  by_cases hb : b = peer
  · subst hb
    obtain ⟨c, t, he, hc⟩ := ht.entry
    rw [he]
    exact (h b).keep rfl (h b).shapedM (h b).shapedU (fun _ _ hq => hq) hc
  · rw [ht.others b hb]
    exact h b

theorem EntriesOk.expire (hconfig : s.config = config) (peer : IpAddr) (now : UInt64) :
    EntriesOk config accepted sent nonces (s.expire peer now) := by
  intro b
  rcases s.expire_entry peer now b with heq | heq
  · rw [heq]
    exact h b
  · rw [heq, hconfig]
    exact .new _ _ _ _ _

/-- The entry of `peer` is replaced after one of its datagrams was accepted. -/
theorem EntriesOk.accept {d : Datagram} {e : NeighbourAuth}
    (he : EntryOk config (d :: accepted) sent nonces d.header.source e) :
    EntriesOk config (d :: accepted) sent nonces (s.setEntry d.header.source e) :=
  entriesOk_setEntry (fun b hb => (h b).acceptOther (Ne.symm hb)) he

theorem EntriesOk.sendChallenge (peer : IpAddr) (now : UInt64) {fresh : Bytes}
    (hsent : ∀ d ∈ accepted, d ∈ sent) (hfresh : ∀ d ∈ sent, fresh ∉ d.replies) :
    EntriesOk config accepted sent
      ((s.sendChallenge peer now fresh).2.filterMap request? ++ nonces)
      (s.sendChallenge peer now fresh).1 := by
  rcases s.sendChallenge_cases peer now fresh with heq | ⟨t, e, rfl, heq⟩
  · rw [heq]
    exact entriesOk_setEntry (fun b _ => h b) (h peer)
  · rw [heq]
    exact entriesOk_setEntry (fun b _ => (h b).moreNonces [fresh])
      ((h peer).challenge hsent hfresh)

end

end Entries

end Steps
variable {w : BabelAuthInterface.Walk} {now : UInt64} {tlvs : List BodyTlv} {s : BabelAuthInterface}
  {peer : IpAddr}

/-! ## Delivery -/

/-- When a datagram answers the pending challenge, and the interface uses a window or has
the datagram's index on record, the counter the answer installs rejects every counter
already accepted from that neighbour under that index. -/
def AnswerCovers (mac : MacFunction) (n : Net) : NetEvent → Prop
  | .deliver a packet header now _ =>
    ∀ region, (n.nodes a).iface.check mac packet header = .verified region →
    ∀ p, ((n.nodes a).iface.entry header.source).challenge = some p → now < p.expiresAtMs →
    p.nonce ∈ (Datagram.mk header region).replies →
    ∀ pc index, (Datagram.mk header region).counter = some (pc, index) →
    ((n.nodes a).iface.config.pcWindow ≠ none ∨
      ((n.nodes a).iface.entry header.source).index = some index) →
    ∀ d ∈ (n.nodes a).accepted, d.header.source = header.source →
    ∀ q, d.counter = some (q, index) →
      ((ReceiverPc.new (n.nodes a).iface.config.pcWindow).resetTo pc).accepts q = false
  | _ => True

theorem requests_of_walk (h : WalkSpec s peer now tlvs w) :
    w.actions.filterMap request? = [] := by
  rw [filterMap_eq_nil_iff]
  intro x hx
  obtain ⟨nonce, rfl, -⟩ := h.actions x hx
  rfl

theorem replies_of_walk (h : WalkSpec s peer now tlvs w) :
    ∀ x ∈ w.actions.filterMap reply?,
      x ∈ tlvs.filterMap BodyTlv.challengeRequest := by
  intro x hx
  obtain ⟨y, hy, hxy⟩ := mem_filterMap.mp hx
  obtain ⟨nonce, rfl, hn⟩ := h.actions y hy
  cases hxy
  exact hn

section Delivery

variable {n : Net} {a : IpAddr} {d : Datagram} {now : UInt64} {fresh : Bytes} {mac : MacFunction}
  {n' : Net}

/-- The network after node `a` has taken in `d` with result `r`. -/
def received (n : Net) (a : IpAddr) (d : Datagram) (r : BabelAuthInterface × BabelVerifyOutcome) :
    Net :=
  { n.setNode a { n.nodes a with
      iface := r.1
      owed := r.2.actions.filterMap reply? ++ (n.nodes a).owed
      asked := r.2.actions.filterMap request? ++ (n.nodes a).asked
      accepted := (if r.2.accepted.isSome then [d] else []) ++ (n.nodes a).accepted } with
    nonces := r.2.actions.filterMap request? ++ n.nonces }

/-- An answer to the challenge was not accepted before, and the counter it installs covers
what was accepted under its index. -/
theorem answer_spec (h : Inv n) (hd : d ∈ n.sent) {packet : Bytes}
    (hcheck : (n.nodes a).iface.check mac packet d.header = .verified d.region)
    (hcovers : AnswerCovers mac n (.deliver a packet d.header now fresh)) {p : PendingChallenge}
    (hp : ((n.nodes a).iface.entry d.header.source).challenge = some p)
    (hnow : now < p.expiresAtMs) (hreply : p.nonce ∈ d.replies) {pc : UInt32} {index : Bytes}
    (hcounter : d.counter = some (pc, index)) :
    d ∉ (n.nodes a).accepted ∧
      ∀ d₀ ∈ (n.nodes a).accepted, d₀.header.source = d.header.source →
      ∀ q, d₀.counter = some (q, index) →
        ((ReceiverPc.new (n.nodes a).iface.config.pcWindow).resetTo pc).accepts q = false := by
  have hentry := (h.node a).entries d.header.source
  refine ⟨fun hmem => hentry.unanswered p hp d hmem rfl hreply, fun d₀ hd₀ hsrc q hq => ?_⟩
  by_cases hcase : (n.nodes a).iface.config.pcWindow ≠ none ∨
      ((n.nodes a).iface.entry d.header.source).index = some index
  · exact hcovers _ hcheck p hp hnow hreply pc index hcounter hcase d₀ hd₀ hsrc q hq
  · -- strict counters and another index on record: the answer is newer
    obtain ⟨hstrict, hindex⟩ := not_or.mp hcase
    rw [not_not.mp hstrict]
    have hnewer := (hentry.newer p hp d₀ hd₀ hsrc q index hq).resolve_left hindex
    simpa [ReceiverPc.new, resetTo, accepts] using
      UInt32.le_of_lt (hnewer d hd rfl pc hcounter hreply)

theorem inv_received (h : Inv n) (hd : d ∈ n.sent) (hfresh : fresh ∉ n.nonces) {packet : Bytes}
    (hcheck : (n.nodes a).iface.check mac packet d.header = .verified d.region)
    (hcovers : AnswerCovers mac n (.deliver a packet d.header now fresh)) :
    Inv (n.received a d ((n.nodes a).iface.receive d.region d.header now fresh)) := by
  have hold := h.node a
  have hr := (n.nodes a).iface.receive_received d.header d.region now fresh
  have hw := walk_spec (n.nodes a).iface d.header now (bodyTlvs (d.region.drop bodyOffset)).1
  generalize foldl _ _ _ = w at hr hw
  have howed : ∀ x ∈ w.actions.filterMap reply?, x ∈ n.nonces := fun x hx =>
    h.requests d hd x (replies_of_walk hw x hx)
  have hasked := requests_of_walk hw
  have hentries : EntriesOk (n.nodes a).iface.config (n.nodes a).accepted n.sent n.nonces
      w.iface := EntriesOk.touch hold.entries hw.touch
  have hexp := hentries.expire hw.touch.sender.1 d.header.source now
  have hpc : w.pcFound = d.counter := hw.pc
  generalize (n.nodes a).iface.receive d.region d.header now fresh = r at hr
  have hsender : SameSender (n.nodes a).iface r.1 :=
    hw.touch.sender.trans hr.others.1
  have hrefused (he : EntriesOk (n.nodes a).iface.config (n.nodes a).accepted n.sent n.nonces r.1)
      (hout : r.2.accepted = none) (hactions : r.2.actions = w.actions) :
      Inv (n.received a d r) := by
    have hinv := h.receive _ [] [] hsender howed (by simp) hold.once he
    simpa only [received, hout, hactions, hasked, Option.isSome_none, Bool.false_eq_true,
      if_false] using hinv
  have htaken (hnot : d ∉ (n.nodes a).accepted)
      (he : EntriesOk (n.nodes a).iface.config (d :: (n.nodes a).accepted) n.sent n.nonces r.1)
      (hout : r.2.accepted.isSome = true) (hactions : r.2.actions = w.actions) :
      Inv (n.received a d r) := by
    have hinv := h.receive _ [] [d] hsender howed (by simpa using hd)
      (nodup_cons.mpr ⟨hnot, hold.once⟩) he
    simpa only [received, hout, hactions, hasked, if_true] using hinv
  cases hr with
  | dropped hout hactions => exact hrefused hentries hout hactions
  | replayed hout hactions => exact hrefused hexp hout hactions
  | answered hsucc hfound hout hactions =>
    obtain ⟨hnone, p, hp, hnow, hreply⟩ := hw.succeeded hsucc
    have hcounter := hpc.symm.trans hfound
    obtain ⟨hnot, hcov⟩ := answer_spec h hd hcheck hcovers hp hnow hreply hcounter
    exact htaken hnot (hentries.accept ((hentries _).reset hcounter hnone hcov now)) hout hactions
  | @challenged out hout hactions =>
    have hunsent : ∀ d₀ ∈ n.sent, fresh ∉ d₀.replies := fun d₀ hd₀ hmem =>
      hfresh (h.replies d₀ hd₀ fresh hmem)
    have hrep : ((w.iface.expire d.header.source now).sendChallenge d.header.source now
        fresh).2.filterMap reply? = [] := by
      rcases (w.iface.expire d.header.source now).sendChallenge_cases d.header.source now
        fresh with heq | ⟨t, e, -, heq⟩ <;> rw [heq] <;> rfl
    have hinv := h.receive _ _ [] hsender howed (by simp) hold.once
      (hexp.sendChallenge d.header.source now hold.accepted hunsent)
    simpa only [received, hout, hactions, filterMap_append, hasked, hrep,
      append_nil, nil_append, Option.isSome_none, Bool.false_eq_true, if_false] using hinv
  | counted hfound hindex hcount hout hactions =>
    have hcounter := hpc.symm.trans hfound
    have hconfig : (w.iface.expire d.header.source now).config = (n.nodes a).iface.config :=
      (expire_config ..).trans hw.touch.sender.1
    obtain ⟨haccepts, e', rfl, hindex', hchallenge, hshM, hshU, hself, hrejected⟩ :=
      countPacket_spec hcount
    rw [hconfig] at haccepts hshM hshU hself hrejected
    have hentry := hexp d.header.source
    have hnot : d ∉ (n.nodes a).accepted := fun hmem =>
      Bool.false_ne_true ((hentry.known d hmem rfl _ _ hcounter hindex).symm.trans haccepts)
    have hunanswered : ∀ p, e'.challenge = some p → p.nonce ∉ d.replies := by
      intro p hp
      rw [hchallenge] at hp
      rcases w.iface.expire_entry d.header.source now d.header.source with heq | heq
      · rw [heq] at hp
        exact hw.unanswered p hp
      · rw [heq] at hp
        cases hp
    have hkept := hentry.keep hindex' (hshM hentry.shapedM) (hshU hentry.shapedU) hrejected
      fun p hp => hchallenge ▸ hp
    exact htaken hnot (hexp.accept (hkept.cons hcounter (hindex'.trans hindex) hself hunanswered))
      hout hactions

theorem inv_deliver (h : Inv n) {packet : Bytes} {header : BabelPseudoHeader}
    (hcovers : AnswerCovers mac n (.deliver a packet header now fresh))
    (hstep : n.deliver mac a packet header now fresh = some n') : Inv n' := by
  obtain ⟨hguard, hstep⟩ := Option.ite_none_right_eq_some.mp hstep
  rw [Bool.and_eq_true] at hguard
  obtain ⟨hunforged, hnonce⟩ := hguard
  have hfresh : fresh ∉ n.nonces := by simpa using hnonce
  unfold unforged at hunforged
  unfold acceptedDatagram at hstep
  cases hcheck : (n.nodes a).iface.check mac packet header with
  | refused e =>
    rw [hcheck] at hstep
    cases hstep
    exact h.receive [] [] [] ⟨rfl, rfl, rfl⟩ (by simp) (by simp) (h.node a).once (h.node a).entries
  | unverified region =>
    -- the interface requires authentication
    have hoff := (h.node a).strict
    unfold BabelAuthInterface.check at hcheck
    repeat' split at hcheck
    all_goals first | cases hcheck | (dsimp only at hcheck; repeat' split at hcheck)
    all_goals simp_all
  | verified region =>
    rw [hcheck] at hstep hunforged
    have hd : (⟨header, region⟩ : Datagram) ∈ n.sent := by simpa using hunforged
    have hinv : Inv (n.received a ⟨header, region⟩
        ((n.nodes a).iface.receive region header now fresh)) :=
      inv_received h hd hfresh hcheck hcovers
    cases hstep
    unfold received at hinv
    dsimp only at hinv ⊢
    cases hout : ((n.nodes a).iface.receive region header now fresh).2.accepted with
    | none => simpa only [hout, Option.isSome_none, Bool.false_eq_true, if_false] using hinv
    | some plain => simpa only [hout, Option.isSome_some, if_true] using hinv

theorem inv_step {e : NetEvent} (h : Inv n) (hcovers : AnswerCovers mac n e)
    (hstep : n.step mac e = some n') : Inv n' := by
  cases e with
  | transmit packet header fresh => exact inv_transmit h hstep
  | deliver a packet header now fresh => exact inv_deliver h hcovers hstep
  | gc a now =>
    cases hstep
    exact h.update rfl (h.node a).sendIndex (h.node a).inUse (fun _ hx => hx)
      (fun _ => ⟨rfl, UInt32.le_refl _⟩) fun b =>
        ((n.nodes a).iface.gc_idle b now).imp_right And.right
  | restart a index pc =>
    simp only [step] at hstep
    split at hstep
    · cases hstep
    rename_i hnew
    split at hstep
    · cases hstep
    rename_i iface hiface
    cases hstep
    obtain ⟨-, hlen, rfl⟩ := new_ok hiface
    have hnew' : index ∉ (n.nodes a).indices := by simpa using hnew
    exact h.update rfl hlen mem_cons_self (fun _ hx => mem_cons_of_mem _ hx)
      (fun hmem => absurd hmem hnew') fun b => .inr (entry_of_none _ _ (by simp))

end Delivery

/-- No datagram of an honest node is accepted twice by the same node, whatever the
network does, as long as answers to challenges cover the counters accepted before. -/
theorem accepted_once {mac : MacFunction} {n n' : Net} {es : List NetEvent} (hinit : Initial n)
    (hcovers : Along (step mac) (AnswerCovers mac) n es)
    (hrun : exec (step mac) n es = some n') (a : IpAddr) : (n'.nodes a).accepted.Nodup :=
  have hinv : Inv n' :=
    exec_invariant (fun _ _ _ hs hQ he => inv_step hs hQ he) (inv_initial hinit) hcovers hrun
  (hinv.node a).once

/-! ### Two nodes -/

/-- The addresses of the runs below. -/
def alice : IpAddr := .v4 ⟨[10, 0, 0, 1], rfl⟩
def bob : IpAddr := .v4 ⟨[10, 0, 0, 2], rfl⟩

/-- All nodes have just started under index `0`. -/
def started (pcWindow : Option Nat) : Net where
  nodes _ :=
    { iface :=
        { config := { keys := [⟨.hmacSha256, [1, 2, 3]⟩], pcWindow := pcWindow }
          sendIndex := [0]
          sendPc := 0 }
      indices := [[0]] }

theorem started_initial (pcWindow : Option Nat) (hsome : pcWindow ≠ some 0) :
    Initial (started pcWindow) where
  iface a := by
    refine ⟨((started pcWindow).nodes a).iface.config, [0], 0, ?_, rfl, rfl⟩
    simp [BabelAuthInterface.new, started, hsome, maxNonceLen, maxIndexLen]
  quiet _ := ⟨rfl, rfl, rfl⟩
  sent := rfl
  nonces := rfl

/-- A MAC for runs in which the network invents nothing. -/
def constantMac : MacFunction := fun _ _ _ => some (replicate 16 7)

/-- A packet with this body. -/
def packetWith (body : Bytes) : Bytes := [42, 2] ++ toBe16 (UInt16.ofNat body.length) ++ body

section

variable (source destination : IpAddr)

/-- The pseudo-header on the Babel port. -/
def headerFor : BabelPseudoHeader :=
  ⟨source, 6696, destination, 6696⟩

/-- What `source` sends for this body, under this index and counter. -/
def datagram (index : Bytes) (pc : UInt32) (body : Bytes) : Datagram where
  header := headerFor source destination
  region := ({ ((started none).nodes source).iface with
    sendIndex := index, sendPc := pc }).authenticatedRegion (packetWith body) body.length

/-- `source` sends this body. -/
def send (body : Bytes) : NetEvent :=
  .transmit (packetWith body) (headerFor source destination) []

end

/-- The datagram reaches its destination with its MAC. -/
def hear (d : Datagram) (now : UInt64) (fresh : UInt8) : NetEvent :=
  .deliver d.header.destination (d.region ++ [16, 16] ++ replicate 16 7) d.header now [fresh]

/-- The challenge TLVs. -/
def request (nonce : UInt8) : Bytes := [18, 1, nonce]
def reply (nonce : UInt8) : Bytes := [19, 1, nonce]

/-- Bob hears Alice for the first time, challenges them and takes over the index. -/
def greeting (index : Bytes) : List NetEvent :=
  [ send alice bob [], hear (datagram alice bob index 1 []) 0 1,
    send bob alice (request 1), hear (datagram bob alice [0] 1 (request 1)) 0 2,
    send alice bob (reply 1), hear (datagram alice bob index 2 (reply 1)) 0 3 ]

/-- Nothing was accepted before, or there is no challenge that could be answered. -/
def unchallenged (n : Net) : NetEvent → Bool
  | .deliver a _ header _ _ => (n.nodes a).accepted.isEmpty ||
      ((n.nodes a).iface.entry header.source).challenge.isNone
  | _ => true

theorem answerCovers_of_unchallenged (mac : MacFunction) (n : Net) (e : NetEvent)
    (h : n.unchallenged e = true) : AnswerCovers mac n e := by
  cases e with
  | deliver a packet header now fresh =>
    intro region _ p hp _ _ pc index _ _ d hd
    simp only [unchallenged, hp, Option.isNone_some, Bool.or_false, List.isEmpty_iff] at h
    simp [h] at hd
  | transmit packet header fresh => trivial
  | gc a now => trivial
  | restart a index pc => trivial

/-- Two more packets of Alice reach Bob out of order, and each of them twice. -/
def reordered : List NetEvent :=
  greeting [0] ++
  [ send alice bob [], send alice bob [],
    hear (datagram alice bob [0] 4 []) 0 4, hear (datagram alice bob [0] 3 []) 0 5,
    hear (datagram alice bob [0] 4 []) 0 6, hear (datagram alice bob [0] 3 []) 0 7 ]

theorem accepted_once_reordered :
    ∃ n, exec (step constantMac) (started (some 8)) reordered = some n ∧
      (n.nodes bob).accepted.length = 3 ∧ (n.nodes bob).accepted.Nodup := by
  have hrun : (exec (step constantMac) (started (some 8)) reordered).map
      (fun n => (n.nodes bob).accepted.length) = some 3 := by decide +kernel
  have hquiet : Along (step constantMac) (unchallenged · ·) (started (some 8)) reordered := by
    decide +kernel
  obtain ⟨n, hn, hlen⟩ := Option.map_eq_some_iff.mp hrun
  exact ⟨n, hn, hlen, accepted_once (started_initial (some 8) (by simp))
    (hquiet.mono (answerCovers_of_unchallenged constantMac)) hn bob⟩

/-- After Alice restarted, an old packet makes Bob challenge the known index.  The answer
is held back while a later packet is accepted, and sets the counter back. -/
def delayedAnswer : List NetEvent :=
  [send alice bob [], .restart alice [1] 0] ++ greeting [1] ++
  [ hear (datagram alice bob [0] 1 []) 1000 3,
    send bob alice (request 3), hear (datagram bob alice [0] 2 (request 3)) 1000 4,
    send alice bob (reply 3), send alice bob [],
    hear (datagram alice bob [1] 4 []) 1000 5,
    hear (datagram alice bob [1] 3 (reply 3)) 1000 6,
    hear (datagram alice bob [1] 4 []) 1000 7 ]

/-- Alice's entry expires; the answer to the new challenge opens an empty window. -/
def emptyWindow : List NetEvent :=
  greeting [0] ++
  [ send alice bob [], hear (datagram alice bob [0] 3 []) 0 3,
    send alice bob [], hear (datagram alice bob [0] 4 []) 400000 3,
    send bob alice (request 3), hear (datagram bob alice [0] 2 (request 3)) 400000 4,
    send alice bob (reply 3), hear (datagram alice bob [0] 5 (reply 3)) 400000 5,
    hear (datagram alice bob [0] 3 []) 400000 6 ]

theorem accepted_twice :
    Initial (started none) ∧ Initial (started (some 8)) ∧
    (exec (step constantMac) (started none) delayedAnswer).map (fun n =>
      (n.nodes bob).accepted.count (datagram alice bob [1] 4 [])) = some 2 ∧
    (exec (step constantMac) (started (some 8)) emptyWindow).map (fun n =>
      (n.nodes bob).accepted.count (datagram alice bob [0] 3 [])) = some 2 :=
  ⟨started_initial none (by simp), started_initial (some 8) (by simp), by decide +kernel,
    by decide +kernel⟩

end Net

end LibRouting.Babel
