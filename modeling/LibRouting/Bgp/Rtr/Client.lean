/-
  Bgp/Rtr/Client.lean --- the RTR client (`lr-bgp/src/rtr/client.rs`, RFC 8210) and the
  ROA records it keeps (`lr-bgp/src/roa.rs`).
-/
import LibRouting.Core.Rib

set_option autoImplicit false

namespace LibRouting.Bgp.Rtr

open Foundation Core List
open Std (ExtTreeSet LawfulEqOrd)

/-! ## Records -/

/-- A validated ROA payload. -/
@[ext] structure RoaEntry where
  pfx : Prefix
  maxLength : UInt8
  asn : UInt32
  deriving DecidableEq, Repr

namespace RoaEntry

/-- `with_max_length`; `none` is the build error. -/
def withMaxLength (pfx : Prefix) (maxLength : UInt8) (asn : UInt32) : Option RoaEntry :=
  let familyMax : UInt8 := if pfx.isIpv4 then 32 else 128
  if maxLength < pfx.prefixLen then none
  else if maxLength > familyMax then none
  else some ⟨pfx, maxLength, asn⟩

instance : Ord RoaEntry :=
  ⟨compareLex (compareOn pfx) (compareLex (compareOn maxLength) (compareOn asn))⟩

instance : Std.TransOrd RoaEntry := inferInstanceAs (Std.TransCmp (compareLex _ (compareLex _ _)))

instance : LawfulEqOrd RoaEntry where
  eq_of_compare h := RoaEntry.ext_iff.mpr (eq_of_compareLex₃ h)

end RoaEntry

/-- A record set.  The code's is a hash set, whose order of iteration is not used. -/
abbrev RoaSet : Type := ExtTreeSet RoaEntry compare

/-- A record that is announced or withdrawn. -/
structure RoaDelta where
  announce : Bool
  entry : RoaEntry
  deriving DecidableEq, Repr

/-- What a delta does to a record set. -/
def RoaDelta.apply (s : RoaSet) (d : RoaDelta) : RoaSet :=
  if d.announce then s.insert d.entry else s.erase d.entry

/-- `diff_records`. -/
def diffRecords (old new : RoaSet) : List RoaDelta :=
  (new.toList.filter fun e => !old.contains e).map (fun e => ⟨true, e⟩) ++
    (old.toList.filter fun e => !new.contains e).map fun e => ⟨false, e⟩

theorem mem_foldl_announce (es : List RoaEntry) (s : RoaSet) (x : RoaEntry) :
    x ∈ (es.map fun e => (⟨true, e⟩ : RoaDelta)).foldl RoaDelta.apply s ↔ x ∈ es ∨ x ∈ s := by
  induction es generalizing s with
  | nil => simp
  | cons e es ih =>
    rw [map_cons, foldl_cons, ih]
    simp only [RoaDelta.apply, if_true, ExtTreeSet.mem_insert, mem_cons,
      LawfulEqOrd.compare_eq_iff_eq]
    grind

theorem mem_foldl_withdraw (es : List RoaEntry) (s : RoaSet) (x : RoaEntry) :
    x ∈ (es.map fun e => (⟨false, e⟩ : RoaDelta)).foldl RoaDelta.apply s ↔ x ∉ es ∧ x ∈ s := by
  induction es generalizing s with
  | nil => simp
  | cons e es ih =>
    rw [map_cons, foldl_cons, ih]
    simp only [RoaDelta.apply, Bool.false_eq_true, if_false, ExtTreeSet.mem_erase,
      mem_cons, ne_eq, LawfulEqOrd.compare_eq_iff_eq]
    grind

/-- Applying the difference of two sets to the first gives the second. -/
theorem foldl_diffRecords (old new : RoaSet) :
    (diffRecords old new).foldl RoaDelta.apply old = new := by
  apply ExtTreeSet.ext_mem
  intro x
  rw [diffRecords, foldl_append, mem_foldl_withdraw, mem_foldl_announce]
  simp only [mem_filter, ExtTreeSet.mem_toList, Bool.not_eq_true',
    ← Bool.not_eq_true, ExtTreeSet.contains_iff_mem]
  grind

/-! ## PDUs -/

/-- The error codes of RFC 8210. -/
inductive RtrErrorCode where
  | corruptData
  | internalError
  | noDataAvailable
  | invalidRequest
  | unsupportedProtocolVersion
  | unsupportedPduType
  | withdrawalOfUnknownRecord
  | duplicateAnnouncementReceived
  | unexpectedProtocolVersion
  deriving DecidableEq, Repr

/-- The PDUs of the protocol. -/
inductive RtrPdu where
  | serialNotify (sessionId : UInt16) (serial : UInt32)
  | serialQuery (sessionId : UInt16) (serial : UInt32)
  | resetQuery
  | cacheResponse (sessionId : UInt16)
  | ipv4Prefix (announce : Bool) (pfx : Prefix) (maxLength : UInt8) (asn : UInt32)
  | ipv6Prefix (announce : Bool) (pfx : Prefix) (maxLength : UInt8) (asn : UInt32)
  | endOfData (sessionId : UInt16) (serial : UInt32)
      (refreshInterval retryInterval expireInterval : Option UInt32)
  | cacheReset
  | routerKey (announce : Bool) (ski : Octets 20) (asn : UInt32) (subjectPublicKeyInfo : Bytes)
  | errorReport (errorCode : RtrErrorCode) (erroneousPdu : Bytes) (errorText : Option String)
  | aspa (announce : Bool) (customerAsn : UInt32) (providers : List UInt32)
  deriving DecidableEq

/-- The version the client starts with. -/
def rtrVersionMax : UInt8 := 2

/-! ## The client -/

/-- What the client waits for. -/
inductive Phase where
  | awaitingReset
  | awaitingSerial
  | receivingPayload
  | synced
  deriving DecidableEq, Repr

/-- The diagnostic lines, with the values they print. -/
inductive ClientLog where
  | unexpectedVersion (version session : UInt8)
  | notifyIgnored (version : UInt8)
  | downgrading (version was : UInt8)
  | serialNotify (serial : UInt32) (sessionId : UInt16)
  | sessionChanged (old new : UInt16)
  | unexpectedResponse (phase : Phase)
  | prefixIgnored (phase : Phase)
  | badEntry (pfx : Prefix)
  | duplicate (entry : RoaEntry)
  | unknownWithdrawal (entry : RoaEntry)
  | endInPhase (phase : Phase)
  | endMismatch (received expected : UInt16)
  | synced (sessionId : UInt16) (serial : UInt32) (roas announced withdrawn : Nat)
  | cacheReset
  | errorReport (code : RtrErrorCode) (text : String)
  | unused (pdu : RtrPdu)
  | unexpected (pdu : RtrPdu)
  | expired
  | refresh
  deriving DecidableEq

/-- What a call of the client hands back. -/
structure ClientStep where
  /-- PDUs to transmit, each with the version it is encoded at. -/
  send : List (UInt8 × RtrPdu) := []
  roaDeltas : List RoaDelta := []
  synced : Bool := false
  drop : Bool := false
  expired : Bool := false
  logs : List ClientLog := []

/-- The client of one cache. -/
structure RtrClient where
  version : UInt8 := rtrVersionMax
  sessionId : Option UInt16 := none
  serial : Option UInt32 := none
  phase : Phase := .awaitingReset
  records : RoaSet := ∅
  batch : RoaSet := ∅
  refreshInterval : UInt32 := 3600
  retryInterval : UInt32 := 600
  expireInterval : UInt32 := 7200
  lastSyncMs : Option UInt64 := none

namespace RtrClient

/-- `RtrClient::new`. -/
def new : RtrClient := {}

section

variable (c : RtrClient)

/-- `set_intervals`. -/
def setIntervals (refresh retry expire : UInt32) : RtrClient :=
  { c with refreshInterval := refresh, retryInterval := retry, expireInterval := expire }

/-- `on_connect`: the client and the query it sends. -/
def onConnect : RtrClient × (UInt8 × RtrPdu) :=
  match c.sessionId, c.serial with
  | some session, some serial =>
    ({ c with phase := .awaitingSerial }, (c.version, .serialQuery session serial))
  | _, _ => ({ c with phase := .awaitingReset }, (c.version, .resetQuery))

/-- `error_report`. -/
def errorReport (code : RtrErrorCode) (text : String) : UInt8 × RtrPdu :=
  (c.version, .errorReport code [] (some text))

/-- The version of a PDU is above the session's (RFC 8210 §5.11); ASPA is exempt. -/
def tooNew (version : UInt8) (pdu : RtrPdu) : Bool :=
  version > c.version && !(pdu matches .aspa _ _ _)

/-- A Serial Notify before the first completed sync. -/
def notifyAtStartup (pdu : RtrPdu) : Bool :=
  c.serial.isNone && pdu matches .serialNotify _ _

/-- The startup downgrade (RFC 8210 §7). -/
def downgrade (version : UInt8) : RtrClient × List ClientLog :=
  if c.serial.isNone && version < c.version && version ≤ rtrVersionMax then
    ({ c with version := version }, [.downgrading version c.version])
  else (c, [])

end

section

variable (c : RtrClient) (sessionId : UInt16)

/-- Serial Notify, past startup. -/
def onSerialNotify (serial : UInt32) : RtrClient × ClientStep :=
  if c.phase = .synced then
    if some sessionId = c.sessionId then
      ({ c with phase := .awaitingSerial },
        { send := [(c.version, .serialQuery sessionId (c.serial.getD 0))],
          logs := [.serialNotify serial sessionId] })
    else
      ({ c with phase := .awaitingReset },
        { send := [(c.version, .resetQuery)],
          logs := [.sessionChanged (c.sessionId.getD 0) sessionId] })
  else (c, {})

/-- Cache Response. -/
def onCacheResponse : RtrClient × ClientStep :=
  match c.phase with
  | .awaitingReset =>
    ({ c with sessionId := some sessionId, batch := ∅, phase := .receivingPayload }, {})
  | .awaitingSerial =>
    if some sessionId ≠ c.sessionId then
      ({ c with sessionId := some sessionId, phase := .awaitingReset, batch := ∅ },
        { send := [(c.version, .resetQuery)],
          logs := [.sessionChanged (c.sessionId.getD 0) sessionId] })
    else ({ c with batch := c.records, phase := .receivingPayload }, {})
  | .receivingPayload | .synced =>
    (c, { send := [c.errorReport .corruptData "cache response in wrong state"],
          logs := [.unexpectedResponse c.phase], drop := true })

/-- IPv4 and IPv6 Prefix. -/
def onPrefix (announce : Bool) (pfx : Prefix) (maxLength : UInt8) (asn : UInt32) :
    RtrClient × ClientStep :=
  if c.phase ≠ .receivingPayload then (c, { logs := [.prefixIgnored c.phase] })
  else
    match RoaEntry.withMaxLength pfx maxLength asn with
    | none => (c, { logs := [.badEntry pfx] })
    | some entry =>
      if announce then
        ({ c with batch := c.batch.insert entry },
          { logs := if c.records.contains entry && c.batch.contains entry then
              [.duplicate entry] else [] })
      else
        ({ c with batch := c.batch.erase entry },
          { logs := if c.batch.contains entry then [] else [.unknownWithdrawal entry] })

/-- End of Data. -/
def onEndOfData (serial : UInt32) (refresh retry expire : Option UInt32) (now : UInt64) :
    RtrClient × ClientStep :=
  if c.phase ≠ .receivingPayload then
    (c, { send := [c.errorReport .corruptData "end-of-data outside a payload batch"],
          logs := [.endInPhase c.phase], drop := true })
  else if some sessionId ≠ c.sessionId then
    (c, { send := [c.errorReport .corruptData "end-of-data session mismatch"],
          logs := [.endMismatch sessionId (c.sessionId.getD 0)], drop := true })
  else
    let deltas := diffRecords c.records c.batch
    ({ c with
        records := c.batch, batch := ∅, serial := some serial, phase := .synced,
        lastSyncMs := some now,
        refreshInterval := max (refresh.getD c.refreshInterval) 1,
        retryInterval := max (retry.getD c.retryInterval) 1,
        expireInterval := max (expire.getD c.expireInterval) 1 },
      { roaDeltas := deltas, synced := true,
        logs := [.synced sessionId serial c.batch.size (deltas.countP (·.announce))
          (deltas.countP (!·.announce))] })

/-- The `match` of `on_pdu`, after the version checks. -/
def handlePdu (pdu : RtrPdu) (now : UInt64) : RtrClient × ClientStep :=
  match pdu with
  | .serialNotify sessionId serial => c.onSerialNotify sessionId serial
  | .cacheResponse sessionId => c.onCacheResponse sessionId
  | .ipv4Prefix announce pfx maxLength asn | .ipv6Prefix announce pfx maxLength asn =>
    c.onPrefix announce pfx maxLength asn
  | .endOfData sessionId serial refresh retry expire =>
    c.onEndOfData sessionId serial refresh retry expire now
  | .cacheReset =>
    ({ c with phase := .awaitingReset, batch := ∅ },
      { send := [(c.version, .resetQuery)], logs := [.cacheReset] })
  | .errorReport code _ text =>
    (c, { drop := true, logs := [.errorReport code (text.getD "")] })
  | .routerKey _ _ _ _ | .aspa _ _ _ => (c, { logs := [.unused pdu] })
  | .serialQuery _ _ | .resetQuery => (c, { logs := [.unexpected pdu] })

/-- `on_pdu`. -/
def onPdu (version : UInt8) (pdu : RtrPdu) (now : UInt64) : RtrClient × ClientStep :=
  if c.tooNew version pdu then
    (c, { send := [c.errorReport .unexpectedProtocolVersion
            "pdu version is higher than the session version"],
          logs := [.unexpectedVersion version c.version], drop := true })
  else if c.notifyAtStartup pdu then (c, { logs := [.notifyIgnored version] })
  else
    let (c', lines) := c.downgrade version
    let (c'', step) := c'.handlePdu pdu now
    (c'', { step with logs := lines ++ step.logs })

/-- `poll`. -/
def poll (now : UInt64) : RtrClient × ClientStep :=
  match c.lastSyncMs with
  | none => (c, {})
  | some last =>
    let elapsed := now.toNat - last.toNat
    if elapsed ≥ c.expireInterval.toNat * 1000 then
      (c, { expired := true, logs := [.expired] })
    else if c.phase = .synced ∧ elapsed ≥ c.refreshInterval.toNat * 1000 then
      ({ c with phase := .awaitingSerial },
        { send := [(c.version, .serialQuery (c.sessionId.getD 0) (c.serial.getD 0))],
          logs := [.refresh] })
    else (c, {})

end

end RtrClient

end LibRouting.Bgp.Rtr
