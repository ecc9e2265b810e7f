/-
  Babel/Auth.lean --- the stateful authentication interface of Babel
  (`lr-babel/src/auth.rs`, RFC 8967 with RFC 9467).

  The MAC functions come from other crates and are a parameter, `mac`; `none` is a key
  the algorithm cannot use.  The nonce source is a parameter of each call: the octets
  the call would draw.
-/
import LibRouting.Babel.PacketCounter
import LibRouting.Core.Addr
import Mathlib.Data.List.Induction

set_option autoImplicit false

namespace LibRouting.Babel

open Foundation Core List
open Std (ExtTreeMap)

/-! ## Packets -/

/-- The pseudo-header that is signed with a packet. -/
structure BabelPseudoHeader where
  source : IpAddr
  sourcePort : UInt16
  destination : IpAddr
  destinationPort : UInt16
  deriving DecidableEq, Repr

/-- `family_matches`. -/
def BabelPseudoHeader.familyMatches (h : BabelPseudoHeader) : Bool :=
  h.source.isIpv4 == h.destination.isIpv4

/-- `IpAddr::is_multicast`. -/
def isMulticast : IpAddr → Bool
  | .v4 a => a.bytes.headD 0 &&& 0xf0 == 0xe0
  | .v6 a => a.bytes.headD 0 == 0xff

/-- The MAC algorithms of RFC 8967. -/
inductive BabelMacAlgorithm where
  | hmacSha256
  | blake2s128
  deriving DecidableEq, Repr

/-- A key and the algorithm it is for. -/
structure BabelMacKey where
  algorithm : BabelMacAlgorithm
  secret : Bytes
  deriving DecidableEq, Repr

/-- The MAC of a pseudo-header and an authenticated region (`compute_mac`). -/
abbrev MacFunction : Type := BabelMacKey → BabelPseudoHeader → Bytes → Option Bytes

/-- Why a packet is not accepted. -/
inductive BabelAuthError where
  | addressFamilyMismatch
  | invalidHeader
  | truncated
  | invalidLength
  | invalidIndex
  | missingMac
  | invalidMac
  | missingPacketCounter
  | authenticationFailed
  | replay
  | noKeys
  | invalidConfig
  | indexMismatch
  | invalidKey
  deriving DecidableEq, Repr

/-- Offset of the body, TLV types and the bounds of RFC 8967. -/
def bodyOffset : Nat := 4
def macTlv : UInt8 := 16
def pcTlv : UInt8 := 17
def challengeRequestTlv : UInt8 := 18
def challengeReplyTlv : UInt8 := 19
def maxIndexLen : Nat := 32
def maxNonceLen : Nat := 192

/-- `validate_packet`: the body length. -/
def validatePacket : Bytes → Except BabelAuthError Nat
  | magic :: version :: h :: l :: body =>
    if magic ≠ 42 ∨ version ≠ 2 then .error .invalidHeader
    else if body.length < (fromBe16 h l).toNat then .error .truncated
    else .ok (fromBe16 h l).toNat
  | _ => .error .invalidHeader

/-- `parse_mac_trailer`: the MAC bodies of the trailer. -/
def parseMacTrailer : Bytes → Except BabelAuthError (List Bytes)
  | [] => .ok []
  | kind :: rest =>
    if kind = 0 then parseMacTrailer rest
    else
      match rest with
      | [] => .error .invalidMac
      | len :: rest =>
        if rest.length < len.toNat then .error .invalidMac
        else
          match parseMacTrailer (rest.drop len.toNat) with
          | .error e => .error e
          | .ok macs =>
            if kind = macTlv ∧ 8 ≤ len.toNat ∧ len.toNat ≤ 128 then
              .ok (rest.take len.toNat :: macs)
            else .ok macs
termination_by b => b.length
decreasing_by
  · simp only [length_cons]
    omega
  · simp only [length_cons, length_drop]
    omega

/-- One element of a packet body. -/
inductive BodyTlv where
  | pad1
  | tlv (kind : UInt8) (value : Bytes)
  deriving DecidableEq, Repr

/-- The octets of an element. -/
def BodyTlv.encode : BodyTlv → Bytes
  | pad1 => [0]
  | tlv kind value => kind :: UInt8.ofNat value.length :: value

/-- The elements of a body up to its end or up to the first one that does not fit, and
whether the end was reached. -/
def bodyTlvs : Bytes → List BodyTlv × Bool
  | [] => ([], true)
  | kind :: rest =>
    if kind = 0 then
      let (tlvs, ok) := bodyTlvs rest
      (.pad1 :: tlvs, ok)
    else
      match rest with
      | [] => ([], false)
      | len :: rest =>
        if rest.length < len.toNat then ([], false)
        else
          let (tlvs, ok) := bodyTlvs (rest.drop len.toNat)
          (.tlv kind (rest.take len.toNat) :: tlvs, ok)
termination_by b => b.length
decreasing_by
  · simp only [length_cons]
    omega
  · simp only [length_cons, length_drop]
    omega

theorem bodyTlvs_pad1 (rest : Bytes) :
    bodyTlvs (0 :: rest) = (.pad1 :: (bodyTlvs rest).1, (bodyTlvs rest).2) := by
  rw [bodyTlvs.eq_def]
  simp

theorem bodyTlvs_tlv {kind len : UInt8} {rest : Bytes} (hkind : kind ≠ 0)
    (hlen : len.toNat ≤ rest.length) :
    bodyTlvs (kind :: len :: rest) =
      (.tlv kind (rest.take len.toNat) :: (bodyTlvs (rest.drop len.toNat)).1,
        (bodyTlvs (rest.drop len.toNat)).2) := by
  rw [bodyTlvs]
  simp [hkind, Nat.not_lt.mpr hlen]

/-- A body that reads to its end is followed by what comes after it. -/
theorem bodyTlvs_append (x y : Bytes) (h : (bodyTlvs x).2 = true) :
    bodyTlvs (x ++ y) = ((bodyTlvs x).1 ++ (bodyTlvs y).1, (bodyTlvs y).2) := by
  fun_induction bodyTlvs x with
  | case1 => simp
  | case2 rest tlvs ok hrec ih =>
    rw [hrec] at ih
    rw [cons_append, bodyTlvs_pad1, ih h]
    rfl
  | case3 | case4 => cases h
  | case5 kind hkind len rest hlen tlvs ok hrec ih =>
    rw [Nat.not_lt] at hlen
    have hlen' : len.toNat ≤ (rest ++ y).length := by
      rw [length_append]
      omega
    rw [hrec] at ih
    rw [cons_append, cons_append, bodyTlvs_tlv hkind hlen', take_append_of_le_length hlen,
      drop_append_of_le_length hlen, ih h]
    rfl

/-- The packet counter and the index a PC TLV carries. -/
def BodyTlv.packetCounter : BodyTlv → Option (UInt32 × Bytes)
  | tlv kind (a :: b :: c :: d :: index) =>
    if kind = pcTlv then some (fromBe32 a b c d, index) else none
  | _ => none

/-- The nonce of a Challenge Reply that is looked at. -/
def BodyTlv.challengeReply : BodyTlv → Option Bytes
  | tlv kind value =>
    if kind = challengeReplyTlv ∧ value.length ≤ maxNonceLen then some value else none
  | pad1 => none

/-- The nonce of a Challenge Request that is looked at. -/
def BodyTlv.challengeRequest : BodyTlv → Option Bytes
  | tlv kind value =>
    if kind = challengeRequestTlv ∧ value.length ≤ maxNonceLen then some value else none
  | pad1 => none

/-! ## The interface -/

/-- A challenge that has not been answered. -/
structure PendingChallenge where
  nonce : Bytes
  expiresAtMs : UInt64
  deriving DecidableEq, Repr

/-- What is known of a neighbour: its index and the counters seen. -/
structure NeighbourAuth where
  index : Option Bytes := none
  pcu : ReceiverPc
  pcm : ReceiverPc
  challenge : Option PendingChallenge := none
  lastRequestMs : Option UInt64 := none
  lastReplyMs : Option UInt64 := none
  lastActivityMs : UInt64 := 0
  deriving DecidableEq, Repr

/-- `NeighbourAuth::new`. -/
def NeighbourAuth.new (pcWindow : Option Nat) : NeighbourAuth :=
  { pcu := .new pcWindow, pcm := .new pcWindow }

/-- The configuration of an interface. -/
structure BabelAuthConfig where
  keys : List BabelMacKey
  acceptUnauthenticated : Bool := false
  splitUnicastMulticast : Bool := true
  pcWindow : Option Nat := none
  challengeIntervalMs : UInt64 := 300
  replyIntervalMs : UInt64 := 300
  challengeExpiryMs : UInt64 := 30000
  neighbourExpiryMs : UInt64 := 300000
  nonceLen : Nat := 16
  indexLen : Nat := 8
  deriving DecidableEq, Repr

/-- What the interface asks its embedder to send. -/
inductive BabelAuthAction where
  | sendChallengeRequest (nonce : Bytes)
  | sendChallengeReply (nonce : Bytes)
  deriving DecidableEq, Repr

/-- The body if accepted, or the reason, and what to send. -/
structure BabelVerifyOutcome where
  accepted : Option Bytes := none
  reason : Option BabelAuthError := none
  actions : List BabelAuthAction := []
  deriving DecidableEq, Repr

/-- Authentication state by address. -/
abbrev Neighbours : Type := ExtTreeMap IpAddr NeighbourAuth compare

/-- The authentication state of one interface. -/
structure BabelAuthInterface where
  config : BabelAuthConfig
  sendIndex : Bytes
  sendPc : UInt32
  neighbours : Neighbours := ∅

/-- `u64::saturating_add`. -/
def saturatingAdd (a b : UInt64) : UInt64 :=
  UInt64.ofNat (min (2 ^ 64 - 1) (a.toNat + b.toNat))

namespace BabelAuthInterface

/-- `new`. -/
def new (config : BabelAuthConfig) (initialIndex : Bytes) (initialPc : UInt32) :
    Except BabelAuthError BabelAuthInterface :=
  if config.keys.isEmpty then .error .noKeys
  else if config.pcWindow = some 0 then .error .invalidConfig
  else if config.nonceLen > maxNonceLen ∨ config.indexLen > maxIndexLen then .error .invalidConfig
  else if initialIndex.length > maxIndexLen then .error .invalidIndex
  else .ok { config := config, sendIndex := initialIndex, sendPc := initialPc }

variable {pc : UInt32} {s : BabelAuthInterface} {now : UInt64} {header : BabelPseudoHeader}

theorem new_ok {config : BabelAuthConfig} {index : Bytes} (h : new config index pc = .ok s) :
    config.indexLen ≤ maxIndexLen ∧
      index.length ≤ maxIndexLen ∧ s = { config := config, sendIndex := index, sendPc := pc } := by
  unfold new at h
  split_ifs at h with _ _ hlens hindex
  cases h
  exact ⟨Nat.not_lt.mp (not_or.mp hlens).2, Nat.not_lt.mp hindex, rfl⟩

/-- The outgoing counter moves on; when it is exhausted, `fresh` becomes the index. -/
def advance (s : BabelAuthInterface) (fresh : Bytes) : BabelAuthInterface :=
  if s.sendPc = 0xffffffff then { s with sendIndex := fresh, sendPc := 0 }
  else { s with sendPc := s.sendPc + 1 }

section

variable (s : BabelAuthInterface) (peer : IpAddr)

/-- The PC TLV of the next packet. -/
def counterTlv : BodyTlv :=
  .tlv pcTlv (toBe32 s.sendPc ++ s.sendIndex)

/-- The part of an outgoing packet that the MACs cover: the packet with the PC TLV
appended and the body length set. -/
def authenticatedRegion (packet : Bytes) (bodyLen : Nat) : Bytes :=
  packet.take 2 ++
    toBe16 (UInt16.ofNat (bodyLen + 6 + s.sendIndex.length)) ++
    (packet.drop bodyOffset).take bodyLen ++ s.counterTlv.encode

/-- `authenticate_packet`. -/
def authenticatePacket (mac : MacFunction) (s : BabelAuthInterface) (packet : Bytes)
    (header : BabelPseudoHeader) (fresh : Bytes) :
    BabelAuthInterface × Except BabelAuthError Bytes :=
  if !header.familyMatches then (s, .error .addressFamilyMismatch)
  else
    match validatePacket packet with
    | .error e => (s, .error e)
    | .ok bodyLen =>
      let s' := s.advance fresh
      let region := s'.authenticatedRegion packet bodyLen
      match s'.config.keys.mapM fun key => mac key header region with
      | none => (s', .error .invalidKey)
      | some macs =>
        (s', .ok (region ++ macs.flatMap fun m => macTlv :: UInt8.ofNat m.length :: m))

/-! ### Reception -/

/-- The checks in front of the neighbour table. -/
inductive Checked where
  | refused (reason : BabelAuthError)
  /-- No MAC, and the interface accepts that. -/
  | unverified (region : Bytes)
  | verified (region : Bytes)
  deriving DecidableEq, Repr

/-- The MAC test: one MAC per configured key, the first match passes. -/
def macTest (mac : MacFunction) (header : BabelPseudoHeader) (region : Bytes)
    (macs : List Bytes) : List BabelMacKey → Except BabelAuthError Unit
  | [] => .error .authenticationFailed
  | key :: keys =>
    match mac key header region with
    | none => .error .invalidKey
    | some expected =>
      if macs.any (· == expected) then .ok () else macTest mac header region macs keys

/-- `verify` up to the MAC test. -/
def check (mac : MacFunction) (s : BabelAuthInterface) (packet : Bytes)
    (header : BabelPseudoHeader) : Checked :=
  if !header.familyMatches then .refused .addressFamilyMismatch
  else
    match validatePacket packet with
    | .error e => .refused e
    | .ok bodyLen =>
      let region := packet.take (bodyOffset + bodyLen)
      match parseMacTrailer (packet.drop (bodyOffset + bodyLen)) with
      | .error e => .refused e
      | .ok macs =>
        if macs.isEmpty then
          if s.config.acceptUnauthenticated then .unverified region else .refused .missingMac
        else
          match macTest mac header region macs s.config.keys with
          | .error e => .refused e
          | .ok _ => .verified region

/-- The entry of a peer, created on demand. -/
def entry : NeighbourAuth :=
  s.neighbours.getD peer (.new s.config.pcWindow)

/-- Replace the entry of a peer. -/
def setEntry (e : NeighbourAuth) : BabelAuthInterface :=
  { s with neighbours := s.neighbours.insert peer e }

/-- A rate limit has passed. -/
def due (last : Option UInt64) (interval now : UInt64) : Bool :=
  match last with
  | none => true
  | some t => now ≥ saturatingAdd t interval

/-- `send_challenge`. -/
def sendChallenge (now : UInt64) (fresh : Bytes) : BabelAuthInterface × List BabelAuthAction :=
  let e := s.entry peer
  if due e.lastRequestMs s.config.challengeIntervalMs now then
    (s.setEntry peer { e with
      challenge := some ⟨fresh, saturatingAdd now s.config.challengeExpiryMs⟩
      lastRequestMs := some now }, [.sendChallengeRequest fresh])
  else (s.setEntry peer e, [])

/-- `schedule_challenge_reply`. -/
def scheduleChallengeReply (nonce : Bytes) (now : UInt64) :
    BabelAuthInterface × List BabelAuthAction :=
  let e := s.entry peer
  if due e.lastReplyMs s.config.replyIntervalMs now then
    (s.setEntry peer { e with lastReplyMs := some now }, [.sendChallengeReply nonce])
  else (s.setEntry peer e, [])

/-- `challenge_reply_matches`. -/
def challengeReplyMatches (nonce : Bytes) (now : UInt64) : BabelAuthInterface × Bool :=
  match s.neighbours[peer]? with
  | none => (s, false)
  | some e =>
    match e.challenge with
    | some pending =>
      if now < pending.expiresAtMs then
        if pending.nonce = nonce then (s.setEntry peer { e with challenge := none }, true)
        else (s, false)
      else (s.setEntry peer { e with challenge := none }, false)
    | none => (s.setEntry peer { e with challenge := none }, false)

end

/-- What the walk over a body has gathered. -/
structure Walk where
  iface : BabelAuthInterface
  pcFound : Option (UInt32 × Bytes) := none
  challengeSucceeded : Bool := false
  plain : Bytes := []
  actions : List BabelAuthAction := []

section

variable (s : BabelAuthInterface) (header : BabelPseudoHeader)

/-- One element of the walk. -/
def walkTlv (now : UInt64) (w : Walk) (t : BodyTlv) : Walk :=
  match t with
  | .pad1 => { w with plain := w.plain ++ [0] }
  | .tlv kind value =>
    if kind = pcTlv then { w with pcFound := w.pcFound.or t.packetCounter }
    else if kind = challengeRequestTlv then
      if !isMulticast header.destination && value.length ≤ maxNonceLen then
        let (s, actions) := w.iface.scheduleChallengeReply header.source value now
        { w with iface := s, actions := w.actions ++ actions }
      else w
    else if kind = challengeReplyTlv then
      if value.length ≤ maxNonceLen then
        let (s, matched) := w.iface.challengeReplyMatches header.source value now
        { w with iface := s, challengeSucceeded := w.challengeSucceeded || matched }
      else w
    else if kind = macTlv then w
    else { w with plain := w.plain ++ t.encode }

/-- The header of the packet that is passed on, its body length set to the plain body's. -/
def plainPacket (region plain : Bytes) : Bytes :=
  region.take 2 ++ toBe16 (UInt16.ofNat plain.length) ++ plain

/-- Expired neighbour state is discarded. -/
def expire (peer : IpAddr) (now : UInt64) : BabelAuthInterface :=
  match s.neighbours[peer]? with
  | none => s
  | some e =>
    if now ≥ saturatingAdd e.lastActivityMs s.config.neighbourExpiryMs then
      { s with neighbours := s.neighbours.erase peer }
    else s

/-- The counter of the multicast class is used. -/
def usesMulticast : Bool :=
  isMulticast header.destination || !s.config.splitUnicastMulticast

/-- The counter test and its bookkeeping for a known index. -/
def countPacket (e : NeighbourAuth) (pc : UInt32) (now : UInt64) : Option BabelAuthInterface :=
  if s.usesMulticast header then
    if e.pcm.accepts pc then
      some (s.setEntry header.source { e with
        pcm := e.pcm.commit pc
        pcu := if s.config.splitUnicastMulticast then e.pcu else e.pcu.commit pc
        lastActivityMs := now })
    else none
  else if e.pcu.accepts pc then
    some (s.setEntry header.source { e with pcu := e.pcu.commit pc, lastActivityMs := now })
  else none

/-- The rest of `verify` once the body has been walked. -/
def conclude (region : Bytes) (now : UInt64) (fresh : Bytes) (w : Walk) :
    BabelAuthInterface × BabelVerifyOutcome :=
  match w.pcFound with
  | none => (w.iface, { reason := some .missingPacketCounter, actions := w.actions })
  | some (pc, index) =>
    if index.length > maxIndexLen then
      (w.iface, { reason := some .invalidIndex, actions := w.actions })
    else
      match (if w.challengeSucceeded then w.iface.neighbours[header.source]? else none) with
      | some e =>
        (w.iface.setEntry header.source { e with
            index := some index, pcm := e.pcm.resetTo pc, pcu := e.pcu.resetTo pc
            lastActivityMs := now },
          { accepted := some (plainPacket region w.plain), actions := w.actions })
      | none =>
        let s := w.iface.expire header.source now
        match s.neighbours[header.source]? with
        | some e =>
          if e.index = some index then
            match s.countPacket header e pc now with
            | some s' =>
              (s', { accepted := some (plainPacket region w.plain), actions := w.actions })
            | none => (s, { reason := some .replay, actions := w.actions })
          else
            let (s', actions) := s.sendChallenge header.source now fresh
            (s', { reason := some .indexMismatch, actions := w.actions ++ actions })
        | none =>
          let (s', actions) := s.sendChallenge header.source now fresh
          (s', { reason := some .indexMismatch, actions := w.actions ++ actions })

/-- `verify` after the MAC test. -/
def receive (region : Bytes) (header : BabelPseudoHeader) (now : UInt64) (fresh : Bytes) :
    BabelAuthInterface × BabelVerifyOutcome :=
  let (tlvs, ok) := bodyTlvs (region.drop bodyOffset)
  let w := tlvs.foldl (walkTlv header now) { iface := s }
  if ok then conclude header region now fresh w
  else (w.iface, { reason := some .invalidLength, actions := w.actions })

/-- `verify`. -/
def verify (mac : MacFunction) (s : BabelAuthInterface) (packet : Bytes)
    (header : BabelPseudoHeader) (now : UInt64) (fresh : Bytes) :
    BabelAuthInterface × BabelVerifyOutcome :=
  match s.check mac packet header with
  | .refused e => (s, { reason := some e })
  | .unverified region => (s, { accepted := some region })
  | .verified region => s.receive region header now fresh

/-- `gc` (the interface afterwards). -/
def gc (now : UInt64) : BabelAuthInterface :=
  { s with neighbours := s.neighbours.filter fun _ e =>
      now < saturatingAdd e.lastActivityMs s.config.neighbourExpiryMs }

end

/-! ## What is sent -/

theorem bodyTlvs_counterTlv (h : s.sendIndex.length ≤ maxIndexLen) :
    bodyTlvs s.counterTlv.encode = ([s.counterTlv], true) := by
  unfold maxIndexLen at h
  have hlen : (UInt8.ofNat (toBe32 s.sendPc ++ s.sendIndex).length).toNat =
      (toBe32 s.sendPc ++ s.sendIndex).length := by
    rw [UInt8.toNat_ofNat']
    apply Nat.mod_eq_of_lt
    simp
    omega
  have hkind : pcTlv ≠ 0 := by decide
  rw [counterTlv, BodyTlv.encode, bodyTlvs_tlv hkind (Nat.le_of_eq hlen), hlen, take_length,
    drop_length]
  simp [bodyTlvs]

theorem packetCounter_counterTlv (s : BabelAuthInterface) :
    s.counterTlv.packetCounter = some (s.sendPc, s.sendIndex) := by
  simp only [counterTlv, toBe32, cons_append, nil_append, BodyTlv.packetCounter,
    if_true, fromBe32_toBe32]

/-- What a receiver reads of an authenticated packet: the body and the PC TLV. -/
theorem bodyTlvs_authenticatedRegion {packet : Bytes} {bodyLen : Nat}
    (hindex : s.sendIndex.length ≤ maxIndexLen) (hpacket : validatePacket packet = .ok bodyLen)
    (hbody : (bodyTlvs ((packet.drop bodyOffset).take bodyLen)).2 = true) :
    (bodyTlvs ((s.authenticatedRegion packet bodyLen).drop bodyOffset)).1 =
      (bodyTlvs ((packet.drop bodyOffset).take bodyLen)).1 ++ [s.counterTlv] := by
  have htwo : (packet.take 2).length = 2 := by
    unfold validatePacket at hpacket
    split at hpacket
    · simp
    · cases hpacket
  have hdrop : (s.authenticatedRegion packet bodyLen).drop bodyOffset =
      (packet.drop bodyOffset).take bodyLen ++ s.counterTlv.encode := by
    unfold authenticatedRegion
    rw [append_assoc, drop_append_of_le_length (by simp [htwo, bodyOffset])]
    rw [drop_of_length_le (by simp [htwo, bodyOffset]), nil_append]
  rw [hdrop, bodyTlvs_append _ _ hbody, bodyTlvs_counterTlv hindex]

/-! ## What the walk over a body does -/

section Table

variable (s : BabelAuthInterface) (peer b : IpAddr) (e : NeighbourAuth) {b : IpAddr}

@[simp] theorem setEntry_self : (s.setEntry peer e).neighbours[peer]? = some e := by
  simp [setEntry]

theorem setEntry_other (h : b ≠ peer) :
    (s.setEntry peer e).neighbours[b]? = s.neighbours[b]? := by
  rw [setEntry, lookup_insert, if_neg (Ne.symm h)]

@[simp] theorem setEntry_entry : (s.setEntry peer e).entry peer = e := by
  simp [entry, ExtTreeMap.getD_eq_getD_getElem?]

theorem setEntry_entry_other (h : b ≠ peer) :
    (s.setEntry peer e).entry b = s.entry b := by
  rw [entry, entry, ExtTreeMap.getD_eq_getD_getElem?, ExtTreeMap.getD_eq_getD_getElem?,
    setEntry_other s peer e h]
  rfl

theorem entry_of_some {e : NeighbourAuth} (h : s.neighbours[peer]? = some e) :
    s.entry peer = e := by
  simp [entry, ExtTreeMap.getD_eq_getD_getElem?, h]

theorem entry_of_none (h : s.neighbours[peer]? = none) : s.entry peer = .new s.config.pcWindow := by
  simp [entry, ExtTreeMap.getD_eq_getD_getElem?, h]

end Table

/-- Nothing of what is sent changes. -/
def SameSender (s s' : BabelAuthInterface) : Prop :=
  s'.config = s.config ∧ s'.sendIndex = s.sendIndex ∧ s'.sendPc = s.sendPc

theorem SameSender.trans {s s' s'' : BabelAuthInterface} (h : SameSender s s')
    (h' : SameSender s' s'') : SameSender s s'' :=
  ⟨h'.1.trans h.1, h'.2.1.trans h.2.1, h'.2.2.trans h.2.2⟩

/-- Of the table only the entry of `peer` has changed, and of that entry only the time
of the last reply and the challenge, which may be gone. -/
structure Touch (peer : IpAddr) (s s' : BabelAuthInterface) : Prop where
  sender : SameSender s s'
  others : ∀ b, b ≠ peer → s'.entry b = s.entry b
  entry : ∃ c t, s'.entry peer = { s.entry peer with challenge := c, lastReplyMs := t } ∧
    ∀ p, c = some p → (s.entry peer).challenge = some p

namespace Touch

variable {peer : IpAddr} {s s' s'' : BabelAuthInterface}

theorem refl (peer : IpAddr) (s : BabelAuthInterface) : Touch peer s s :=
  ⟨⟨rfl, rfl, rfl⟩, fun _ _ => rfl, _, _, rfl, fun _ h => h⟩

theorem setEntry {c : Option PendingChallenge} (t : Option UInt64)
    (hc : ∀ p, c = some p → (s.entry peer).challenge = some p) :
    Touch peer s (s.setEntry peer { s.entry peer with challenge := c, lastReplyMs := t }) :=
  ⟨⟨rfl, rfl, rfl⟩, fun _ => setEntry_entry_other _ _ _, c, t, setEntry_entry .., hc⟩

theorem challenge (h : Touch peer s s') (p : PendingChallenge)
    (hp : (s'.entry peer).challenge = some p) : (s.entry peer).challenge = some p := by
  obtain ⟨c, t, he, hc⟩ := h.entry
  rw [he] at hp
  exact hc p hp

theorem trans (h : Touch peer s s') (h' : Touch peer s' s'') : Touch peer s s'' := by
  obtain ⟨c, t, he, hc⟩ := h'.entry
  obtain ⟨c₀, t₀, he₀, -⟩ := h.entry
  exact ⟨h.sender.trans h'.sender, fun b hb => (h'.others b hb).trans (h.others b hb), c, t,
    by rw [he, he₀], fun p hp => h.challenge p (hc p hp)⟩

theorem challenge_none (h : Touch peer s s') (hnone : (s.entry peer).challenge = none) :
    (s'.entry peer).challenge = none := by
  refine Option.eq_none_iff_forall_ne_some.mpr fun p hp => ?_
  rw [h.challenge p hp] at hnone
  cases hnone

end Touch

theorem scheduleChallengeReply_touch (s : BabelAuthInterface) (peer : IpAddr) (nonce : Bytes)
    (now : UInt64) : Touch peer s (s.scheduleChallengeReply peer nonce now).1 := by
  unfold scheduleChallengeReply
  dsimp only
  split <;> exact .setEntry _ fun _ h => h

theorem scheduleChallengeReply_actions (s : BabelAuthInterface) (peer : IpAddr) (nonce : Bytes)
    (now : UInt64) :
    ∀ a ∈ (s.scheduleChallengeReply peer nonce now).2, a = .sendChallengeReply nonce := by
  unfold scheduleChallengeReply
  dsimp only
  split <;> simp

section Matches

variable (s : BabelAuthInterface) (peer : IpAddr) (nonce : Bytes) (now : UInt64)

theorem challengeReplyMatches_cases : (s.challengeReplyMatches peer nonce now).1 = s ∨
    (s.challengeReplyMatches peer nonce now).1 =
      s.setEntry peer { s.entry peer with challenge := none } := by
  fun_cases challengeReplyMatches s peer nonce now with
  | case1 | case3 => exact .inl rfl
  | case2 e he | case4 e he | case5 e he => exact .inr (by rw [entry_of_some s peer he])

theorem challengeReplyMatches_touch : Touch peer s (s.challengeReplyMatches peer nonce now).1 := by
  rcases s.challengeReplyMatches_cases peer nonce now with heq | heq <;> rw [heq]
  · exact .refl peer s
  · exact .setEntry _ nofun

theorem challengeReplyMatches_ne {p : PendingChallenge}
    (h : ((s.challengeReplyMatches peer nonce now).1.entry peer).challenge = some p) :
    p.nonce ≠ nonce := by
  revert h
  fun_cases challengeReplyMatches s peer nonce now with
  | case1 hnone =>
    rw [entry_of_none s peer hnone]
    exact nofun
  | case2 | case4 | case5 =>
    rw [setEntry_entry]
    exact nofun
  | case3 e he pending hpending _ hne =>
    rw [entry_of_some s peer he, hpending]
    rintro ⟨⟩
    exact hne

theorem challengeReplyMatches_true (h : (s.challengeReplyMatches peer nonce now).2 = true) :
    ((s.challengeReplyMatches peer nonce now).1.entry peer).challenge = none ∧
      ∃ p, (s.entry peer).challenge = some p ∧ now < p.expiresAtMs ∧ p.nonce = nonce := by
  revert h
  fun_cases challengeReplyMatches s peer nonce now with
  | case1 | case3 | case4 | case5 => exact nofun
  | case2 e he pending hpending hnow hnonce =>
    intro _
    rw [setEntry_entry, entry_of_some s peer he]
    exact ⟨rfl, pending, hpending, hnow, hnonce⟩

end Matches
variable {tlvs : List BodyTlv} {w : Walk}

/-- The interface after part of a body. -/
structure WalkSpec (s : BabelAuthInterface) (peer : IpAddr) (now : UInt64)
    (tlvs : List BodyTlv) (w : Walk) : Prop where
  touch : Touch peer s w.iface
  pc : w.pcFound = tlvs.findSome? BodyTlv.packetCounter
  unanswered : ∀ p, (w.iface.entry peer).challenge = some p →
    p.nonce ∉ tlvs.filterMap BodyTlv.challengeReply
  succeeded : w.challengeSucceeded = true → (w.iface.entry peer).challenge = none ∧
    ∃ p, (s.entry peer).challenge = some p ∧ now < p.expiresAtMs ∧
      p.nonce ∈ tlvs.filterMap BodyTlv.challengeReply
  actions : ∀ a ∈ w.actions, ∃ n, a = .sendChallengeReply n ∧
    n ∈ tlvs.filterMap BodyTlv.challengeRequest

theorem WalkSpec.actions_append {peer : IpAddr} (h : WalkSpec s peer now tlvs w) (t : BodyTlv) :
    ∀ a ∈ w.actions, ∃ n, a = .sendChallengeReply n ∧
      n ∈ (tlvs ++ [t]).filterMap BodyTlv.challengeRequest := by
  intro a ha
  obtain ⟨n, rfl, hn⟩ := h.actions a ha
  exact ⟨n, rfl, by simp [filterMap_append, hn]⟩

/-- An element that is neither request nor reply leaves the interface alone; of the packet
counters the first one counts. -/
theorem WalkSpec.counter {peer : IpAddr} (h : WalkSpec s peer now tlvs w) {t : BodyTlv} {b : Bytes}
    (hreply : t.challengeReply = none) : WalkSpec s peer now (tlvs ++ [t])
      { w with pcFound := w.pcFound.or t.packetCounter, plain := b } where
  touch := h.touch
  pc := by simp only [h.pc, findSome?_append, findSome?_singleton]
  unanswered p hp := by
    simpa [filterMap_append, hreply] using h.unanswered p hp
  succeeded hs := by
    simpa [filterMap_append, hreply] using h.succeeded hs
  actions := h.actions_append t

theorem WalkSpec.plain {peer : IpAddr} (h : WalkSpec s peer now tlvs w) {t : BodyTlv} {b : Bytes}
    (hpc : t.packetCounter = none) (hreply : t.challengeReply = none) :
    WalkSpec s peer now (tlvs ++ [t]) { w with plain := b } := by
  simpa [hpc] using h.counter (b := b) hreply

theorem walkTlv_spec (h : WalkSpec s header.source now tlvs w) (t : BodyTlv) :
    WalkSpec s header.source now (tlvs ++ [t]) (walkTlv header now w t) := by
  have hother : ∀ {kind value}, kind ≠ pcTlv → (BodyTlv.tlv kind value).packetCounter = none := by
    intro kind value hkind
    unfold BodyTlv.packetCounter
    split
    case h_1 heq =>
      cases heq
      exact if_neg hkind
    case h_2 => rfl
  fun_cases walkTlv header now w t with
  | case1 => exact h.plain rfl rfl
  | case2 => exact h.counter (by simp [BodyTlv.challengeReply, pcTlv, challengeReplyTlv])
  | case3 value hlooked s' actions hsched hpc =>
    have hlen : value.length ≤ maxNonceLen := by
      rw [Bool.and_eq_true] at hlooked
      simpa using hlooked.2
    have hreply : (BodyTlv.tlv challengeRequestTlv value).challengeReply = none := rfl
    have hreq : (BodyTlv.tlv challengeRequestTlv value).challengeRequest = some value := by
      simp [BodyTlv.challengeRequest, hlen]
    have htouch := scheduleChallengeReply_touch w.iface header.source value now
    have hactions := scheduleChallengeReply_actions w.iface header.source value now
    rw [hsched] at htouch hactions
    refine ⟨h.touch.trans htouch, ?_, ?_, ?_, ?_⟩
    · simp [h.pc, findSome?_append, hother hpc]
    · intro p hp
      simpa [filterMap_append, hreply] using h.unanswered p (htouch.challenge p hp)
    · intro hs
      obtain ⟨hnone, hex⟩ := h.succeeded hs
      exact ⟨htouch.challenge_none hnone, by simpa [filterMap_append, hreply] using hex⟩
    · exact forall_mem_append.mpr ⟨h.actions_append _, fun a ha =>
        ⟨value, hactions a ha, by simp [filterMap_append, hreq]⟩⟩
  | case4 _ _ hpc => exact h.plain (hother hpc) rfl
  | case5 value hlen s' matched hmatch hpc =>
    have hreply : (BodyTlv.tlv challengeReplyTlv value).challengeReply = some value := by
      simp [BodyTlv.challengeReply, hlen]
    have htouch := challengeReplyMatches_touch w.iface header.source value now
    have hne := fun {p} => challengeReplyMatches_ne (p := p) w.iface header.source value now
    have htrue := challengeReplyMatches_true w.iface header.source value now
    rw [hmatch] at htouch hne htrue
    refine ⟨h.touch.trans htouch, ?_, ?_, ?_, h.actions_append _⟩
    · simp [h.pc, findSome?_append, hother hpc]
    · intro p hp
      have hold := h.unanswered p (htouch.challenge p hp)
      simp [filterMap_append, hreply, hold, hne hp]
    · intro hs
      rw [Bool.or_eq_true] at hs
      rcases hs with hs | hs
      · obtain ⟨hnone, p, hp, hnow, hmem⟩ := h.succeeded hs
        exact ⟨htouch.challenge_none hnone, p, hp, hnow, by simp [filterMap_append, hmem]⟩
      · obtain ⟨hnone, p, hp, hnow, hnonce⟩ := htrue hs
        exact ⟨hnone, p, h.touch.challenge p hp, hnow,
          by simp [filterMap_append, hreply, hnonce]⟩
  | case6 value hlen hpc => exact h.plain (hother hpc) (by simp [BodyTlv.challengeReply, hlen])
  | case7 _ hpc _ hreply | case8 _ _ hpc _ hreply =>
    exact h.plain (hother hpc) (by simp [BodyTlv.challengeReply, hreply])

section

variable (s : BabelAuthInterface) (peer : IpAddr) (now : UInt64)

theorem walk_spec (header : BabelPseudoHeader) (now : UInt64) (tlvs : List BodyTlv) :
    WalkSpec s header.source now tlvs (tlvs.foldl (walkTlv header now) { iface := s }) := by
  induction tlvs using reverseRecOn with
  | nil => exact ⟨.refl _ _, rfl, by simp, by simp, by simp⟩
  | append_singleton tlvs t ih =>
    rw [foldl_append]
    exact walkTlv_spec ih t

/-! ## What the rest of reception does -/

/-- The entry has been inactive for too long. -/
def idle (e : NeighbourAuth) (now : UInt64) : Bool :=
  now ≥ saturatingAdd e.lastActivityMs s.config.neighbourExpiryMs

theorem expire_cases : s.expire peer now = s ∨
    s.expire peer now = { s with neighbours := s.neighbours.erase peer } := by
  fun_cases expire s peer now with
  | case1 | case3 => exact .inl rfl
  | case2 => exact .inr rfl

theorem expire_entry_other {b : IpAddr} (h : b ≠ peer) :
    (s.expire peer now).entry b = s.entry b := by
  rcases s.expire_cases peer now with heq | heq
  · rw [heq]
  simp [heq, entry, ExtTreeMap.getD_erase, Ne.symm h]

theorem expire_idle :
    (s.expire peer now).entry peer = s.entry peer ∨
      s.idle (s.entry peer) now = true ∧
        (s.expire peer now).entry peer = .new s.config.pcWindow := by
  unfold expire
  split
  · exact .inl rfl
  rename_i e he
  split
  · rename_i hidle
    refine .inr ⟨?_, entry_of_none _ _ (by simp)⟩
    rw [entry_of_some s peer he]
    exact decide_eq_true hidle
  · exact .inl rfl

theorem gc_idle :
    (s.gc now).entry peer = s.entry peer ∨
      s.idle (s.entry peer) now = true ∧ (s.gc now).entry peer = .new s.config.pcWindow := by
  simp only [idle, entry, gc, ExtTreeMap.getD_eq_getD_getElem?, ExtTreeMap.getElem?_filter]
  cases s.neighbours[peer]? with
  | none => exact .inl rfl
  | some e =>
    simp only [Option.pfilter_some, Option.getD_some]
    split
    · exact .inl rfl
    · rename_i hidle
      exact .inr ⟨by simpa [UInt64.not_lt] using hidle, rfl⟩

theorem expire_entry (b : IpAddr) :
    (s.expire peer now).entry b = s.entry b ∨
      (s.expire peer now).entry b = .new s.config.pcWindow := by
  by_cases hb : b = peer
  · subst hb
    exact (s.expire_idle b now).imp_right And.right
  · exact .inl (s.expire_entry_other peer now hb)

theorem expire_sender : SameSender s (s.expire peer now) := by
  rcases s.expire_cases peer now with heq | heq <;> rw [heq] <;> exact ⟨rfl, rfl, rfl⟩

@[simp] theorem expire_config : (s.expire peer now).config = s.config :=
  (s.expire_sender peer now).1

/-- Either there is no new challenge or the entry has the nonce that was drawn. -/
theorem sendChallenge_cases (fresh : Bytes) :
    s.sendChallenge peer now fresh = (s.setEntry peer (s.entry peer), []) ∨
      ∃ t e, e = { s.entry peer with challenge := some ⟨fresh, t⟩, lastRequestMs := some now } ∧
        s.sendChallenge peer now fresh = (s.setEntry peer e, [.sendChallengeRequest fresh]) := by
  unfold sendChallenge
  dsimp only
  split
  · exact .inr ⟨_, _, rfl, rfl⟩
  · exact .inl rfl

end

/-- The ways a datagram that passed the MAC test can go. -/
inductive Received (header : BabelPseudoHeader) (now : UInt64) (fresh : Bytes) (w : Walk) :
    BabelAuthInterface × BabelVerifyOutcome → Prop
  | dropped {out : BabelVerifyOutcome} (hout : out.accepted = none)
      (hactions : out.actions = w.actions) : Received header now fresh w (w.iface, out)
  | answered {pc : UInt32} {index : Bytes} {out : BabelVerifyOutcome}
      (hsucc : w.challengeSucceeded = true) (hpc : w.pcFound = some (pc, index))
      (hout : out.accepted.isSome = true) (hactions : out.actions = w.actions) :
      Received header now fresh w
        (w.iface.setEntry header.source { w.iface.entry header.source with
            index := some index
            pcm := (w.iface.entry header.source).pcm.resetTo pc
            pcu := (w.iface.entry header.source).pcu.resetTo pc
            lastActivityMs := now }, out)
  | challenged {out : BabelVerifyOutcome} (hout : out.accepted = none)
      (hactions : out.actions = w.actions ++
        ((w.iface.expire header.source now).sendChallenge header.source now fresh).2) :
      Received header now fresh w
        (((w.iface.expire header.source now).sendChallenge header.source now fresh).1, out)
  | counted {pc : UInt32} {index : Bytes} {s' : BabelAuthInterface} {out : BabelVerifyOutcome}
      (hpc : w.pcFound = some (pc, index))
      (hindex : ((w.iface.expire header.source now).entry header.source).index = some index)
      (hcount : (w.iface.expire header.source now).countPacket header
        ((w.iface.expire header.source now).entry header.source) pc now = some s')
      (hout : out.accepted.isSome = true) (hactions : out.actions = w.actions) :
      Received header now fresh w (s', out)
  | replayed {out : BabelVerifyOutcome} (hout : out.accepted = none)
      (hactions : out.actions = w.actions) :
      Received header now fresh w (w.iface.expire header.source now, out)

theorem countPacket_entry {s' : BabelAuthInterface} {e : NeighbourAuth}
    (h : s.countPacket header e pc now = some s') : ∃ pcm pcu, s' = s.setEntry header.source
      { e with pcm := pcm, pcu := pcu, lastActivityMs := now } := by
  revert h
  fun_cases countPacket s header e pc now with
  | case1 | case3 =>
    rintro ⟨⟩
    exact ⟨_, _, rfl⟩
  | case2 | case4 => exact nofun

/-- Once the body has been walked, only the entry of the source changes. -/
theorem Received.others {fresh : Bytes} {w : Walk} {r : BabelAuthInterface × BabelVerifyOutcome}
    (h : Received header now fresh w r) :
    SameSender w.iface r.1 ∧
      ∀ b, b ≠ header.source → r.1.entry b = w.iface.entry b := by
  have hsender := w.iface.expire_sender header.source now
  have hset : ∀ e b, b ≠ header.source →
      ((w.iface.expire header.source now).setEntry header.source e).entry b = w.iface.entry b :=
    fun e b hb => (setEntry_entry_other _ _ _ hb).trans (expire_entry_other _ _ _ hb)
  cases h with
  | dropped => exact ⟨⟨rfl, rfl, rfl⟩, fun _ _ => rfl⟩
  | answered => exact ⟨⟨rfl, rfl, rfl⟩, fun _ hb => setEntry_entry_other _ _ _ hb⟩
  | replayed => exact ⟨hsender, fun _ hb => expire_entry_other _ _ _ hb⟩
  | counted _ _ hcount =>
    obtain ⟨pcm, pcu, rfl⟩ := countPacket_entry hcount
    exact ⟨hsender, hset _⟩
  | challenged =>
    rcases sendChallenge_cases (w.iface.expire header.source now) header.source now fresh with
      hc | ⟨t, e, -, hc⟩ <;> rw [hc] <;> exact ⟨hsender, hset _⟩

theorem conclude_received (header : BabelPseudoHeader) (region : Bytes) (now : UInt64)
    (fresh : Bytes) (w : Walk) :
    Received header now fresh w (conclude header region now fresh w) := by
  fun_cases conclude header region now fresh w with
  | case1 | case2 => exact .dropped rfl rfl
  | case3 pc index hpc _ e hmatch =>
    split at hmatch
    case isTrue hsucc =>
      obtain rfl := entry_of_some w.iface header.source hmatch
      exact .answered hsucc hpc rfl rfl
    case isFalse => cases hmatch
  | case4 pc index hpc _ _ s e he hindex s' hcount =>
    have hentry := entry_of_some _ header.source he
    exact .counted hpc (by rw [hentry, hindex]) (by rw [hentry]; exact hcount) rfl rfl
  | case5 => exact .replayed rfl rfl
  | case6 pc index _ _ _ s e he _ s' actions hsend | case7 pc index _ _ _ s _ s' actions hsend =>
    obtain ⟨rfl, rfl⟩ := Prod.mk.inj hsend
    exact .challenged rfl rfl

/-- Every datagram that passed the MAC test is walked and goes one of these ways. -/
theorem receive_received (s : BabelAuthInterface) (header : BabelPseudoHeader) (region : Bytes)
    (now : UInt64) (fresh : Bytes) :
    Received header now fresh
      ((bodyTlvs (region.drop bodyOffset)).1.foldl (walkTlv header now) { iface := s })
      (s.receive region header now fresh) := by
  unfold receive
  dsimp only
  split
  · exact conclude_received header region now fresh _
  · exact .dropped rfl rfl

end BabelAuthInterface

end LibRouting.Babel
