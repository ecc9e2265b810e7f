/-
  Bgp/MpNlri.lean --- MP_REACH_NLRI and MP_UNREACH_NLRI (`path/mp_nlri.rs`), MPLS label
  stacks (`lr-mpls`) and the labelled-unicast NLRI that carries them
  (`path/labeled_nlri.rs`, RFC 8277).

  `None` of the source is `err ()` where the decoder may panic too.  Every access of the
  labelled decoders is guarded by a length check, so `None` is their only failure.
-/
import LibRouting.Bgp.Codec.Decode

set_option autoImplicit false

namespace LibRouting.Bgp

open Foundation Core Outcome

/-- The next hop field of MP_REACH_NLRI. -/
inductive MpNextHop where
  | v4 (a : Octets 4)
  | v6Global (a : Octets 16)
  | v6LinkLocal (a : Octets 16)
  | v6GlobalLinkLocal (global link : Octets 16)
  | v4OverV6 (a : Octets 16)
  deriving DecidableEq, Repr

namespace MpNextHop

/-- `MpNextHop::encode`. -/
def encode : MpNextHop → Bytes
  | v4 a => a.bytes
  | v6Global a | v6LinkLocal a | v4OverV6 a => a.bytes
  | v6GlobalLinkLocal g l => g.bytes ++ l.bytes

/-- `MpNextHop::primary`. -/
def primary : MpNextHop → IpAddr
  | v4 a => .v4 a
  | v6Global a | v6LinkLocal a | v4OverV6 a => .v6 a
  | v6GlobalLinkLocal g _ => .v6 g

/-- `decode_next_hop`: the family and the length decide the form. -/
def decode (b : Bytes) (family : NlriFamily) : Outcome Unit MpNextHop :=
  if family.afi = 1 ∧ b.length = 4 then ok (v4 (.padded 4 b))
  else if family.afi = 1 ∧ b.length = 16 then ok (v4OverV6 (.padded 16 b))
  else if family.afi = 2 ∧ b.length = 16 then ok (v6Global (.padded 16 b))
  else if family.afi = 2 ∧ b.length = 32 then
    ok (v6GlobalLinkLocal (.padded 16 (b.take 16)) (.padded 16 (b.drop 16)))
  else err ()

end MpNextHop

/-- The value of MP_REACH_NLRI. -/
structure MpReach where
  family : NlriFamily
  nextHop : MpNextHop
  nlri : List Nlri
  deriving DecidableEq, Repr

/-- The value of MP_UNREACH_NLRI. -/
structure MpUnreach where
  family : NlriFamily
  nlri : List Nlri
  deriving DecidableEq, Repr

/-- The prefix an MP entry of the family carries: `max_octets` and the address
constructor; `none` for a family the plain decoder does not know. -/
def mpAddress (family : NlriFamily) : Option (Nat × (Bytes → UInt8 → Prefix)) :=
  if family.afi = 1 then some (4, fun a pl => .newV4 (.padded 4 a) pl)
  else if family.afi = 2 then some (16, fun a pl => .newV6 (.padded 16 a) pl)
  else none

/-- One turn of the NLRI loop that `MpReach::decode_ex` and
`MpUnreach::decode_ex` share. -/
def decodeMpNlriTurn (family : NlriFamily) (addPath : Bool) (out : List Nlri) (_ : Nat)
    (rest : Bytes) : Outcome Unit (List Nlri × Nat) := do
  let (pathId, k) ← readPathId addPath () rest
  let pl ← index rest k
  let k := k + 1
  if rest.length < k + Prefix.octetCount pl then err ()
  else
    match mpAddress family with
    | none => err ()
    | some (maxOctets, address) =>
      if maxOctets < Prefix.octetCount pl then err ()
      else do
        let a ← slice rest k (k + Prefix.octetCount pl)
        pure (out ++ [⟨pathId, address a pl⟩], k + Prefix.octetCount pl)

/-- `MpReach::decode_ex`. -/
def MpReach.decodeEx (b : Bytes) (addPath : Bool) : Outcome Unit MpReach :=
  if b.length < 4 then err ()
  else do
    let afi ← readBe16 b 0
    let safi ← index b 2
    let family : NlriFamily := ⟨afi, safi⟩
    let nhLen ← UInt8.toNat <$> index b 3
    if b.length < 4 + nhLen then err ()
    else do
      let nhBytes ← slice b 4 (4 + nhLen)
      let nextHop ← MpNextHop.decode nhBytes family
      if b.length ≤ 4 + nhLen then ok ⟨family, nextHop, []⟩
      else do
        -- one reserved octet stands before the NLRI (RFC 4760 §3)
        let section_ ← slice b (4 + nhLen + 1) b.length
        let nlri ← scan (decodeMpNlriTurn family addPath) [] (4 + nhLen + 1) section_
        pure ⟨family, nextHop, nlri⟩

/-- `MpUnreach::decode_ex`. -/
def MpUnreach.decodeEx (b : Bytes) (addPath : Bool) : Outcome Unit MpUnreach :=
  if b.length < 3 then err ()
  else do
    let afi ← readBe16 b 0
    let safi ← index b 2
    let section_ ← slice b 3 b.length
    let nlri ← scan (decodeMpNlriTurn ⟨afi, safi⟩ addPath) [] 3 section_
    pure ⟨⟨afi, safi⟩, nlri⟩

/-! ## Encoding -/

/-- The octets of a prefix with the host bits of the last one cleared. -/
def maskedOctets (p : Prefix) : Bytes :=
  let octets := p.addr.octets.take (Prefix.octetCount p.prefixLen)
  if p.prefixLen.toNat % 8 = 0 then octets
  else octets.modifyLast fun last =>
    last &&& ((0xff : UInt8) <<< UInt8.ofNat (8 - p.prefixLen.toNat % 8))

/-- One MP entry. -/
def mpNlriWire (addPath : Bool) (n : Nlri) : Bytes :=
  (if addPath then toBe32 n.pathId else []) ++ n.pfx.prefixLen :: maskedOctets n.pfx

/-- `MpReach::encode_ex`. -/
def MpReach.encodeEx (m : MpReach) (addPath : Bool) : Bytes :=
  toBe16 m.family.afi ++ [m.family.safi] ++ [UInt8.ofNat m.nextHop.encode.length] ++
    m.nextHop.encode ++ [0] ++ m.nlri.flatMap (mpNlriWire addPath)

/-- `MpUnreach::encode_ex`. -/
def MpUnreach.encodeEx (m : MpUnreach) (addPath : Bool) : Bytes :=
  toBe16 m.family.afi ++ [m.family.safi] ++ m.nlri.flatMap (mpNlriWire addPath)

/-! ## Label stacks -/

/-- An MPLS label stack entry. -/
structure Label where
  value : UInt32
  tc : UInt8
  ttl : UInt8
  deriving DecidableEq, Repr

namespace Label

/-- `Label::new_value`. -/
def newValue (value : UInt32) : Label := ⟨value, 0, 0⟩

/-- `Label::IMPLICIT_NULL`. -/
def implicitNull : Label := newValue 3

/-- The bottom-of-stack bit. -/
def bottomBit (bottom : Bool) : UInt32 := if bottom then 1 else 0

/-- `Label::encode_3octet`: the form inside an NLRI, without class and TTL. -/
def encode3octet (l : Label) (bottom : Bool) : Bytes :=
  [(l.value >>> 12).toUInt8, (l.value >>> 4).toUInt8,
    (((l.value &&& 0x0f) <<< 4) ||| bottomBit bottom).toUInt8]

/-- `Label::encode_4octet`. -/
def encode4octet (l : Label) (bottom : Bool) : Bytes :=
  [(l.value >>> 12).toUInt8, (l.value >>> 4).toUInt8,
    (((l.value &&& 0x0f) <<< 4) ||| ((l.tc.toUInt32 &&& 0x07) <<< 1) |||
      bottomBit bottom).toUInt8, l.ttl]

end Label

/-- Top of stack first. -/
abbrev LabelStack : Type := List Label

namespace LabelStack

/-- Write the entries with the bottom bit on the last one. -/
def encodeWith (entry : Label → Bool → Bytes) : LabelStack → Bytes
  | [] => []
  | [l] => entry l true
  | l :: rest => entry l false ++ encodeWith entry rest

/-- `LabelStack::encode_3octet`. -/
def encode3octet : LabelStack → Bytes := encodeWith Label.encode3octet

/-- `LabelStack::encode_4octet`. -/
def encode4octet : LabelStack → Bytes := encodeWith Label.encode4octet

/-- The entries of a value whose length is a multiple of four.  A bottom bit
before the last entry is an error. -/
def decodeEntries : Bytes → Option LabelStack
  | [] => some []
  | a :: b :: c :: d :: rest =>
    let word := fromBe32 a b c d
    let label : Label :=
      ⟨(word >>> 12) &&& 0xfffff, ((word >>> 9) &&& 0x07).toUInt8, (word &&& 0xff).toUInt8⟩
    if (word >>> 8) &&& 0x01 ≠ 0 then
      if rest = [] then some [label] else none
    else (decodeEntries rest).map (label :: ·)
  | _ => none

/-- `LabelStack::decode_4octet(..).ok()`. -/
def decode4octet (b : Bytes) : Option LabelStack :=
  if b = [] then none else if b.length % 4 ≠ 0 then none else decodeEntries b

end LabelStack

/-! ## NLRI entries -/

/-- A prefix with the labels bound to it. -/
structure LabeledNlri where
  pathId : UInt32
  labelStack : LabelStack
  pfx : Prefix
  deriving DecidableEq, Repr

namespace LabeledNlri

/-- `LabeledNlri::encode`: refused without a label, or when labels and prefix
exceed the bit count the length octet can hold. -/
def encode (e : LabeledNlri) (addPath : Bool) : Option Bytes :=
  if e.labelStack = [] then none
  else
    let labels := e.labelStack.encode3octet
    let totalBits := labels.length * 8 + e.pfx.prefixLen.toNat
    if 255 < totalBits then none
    else some ((if addPath then toBe32 e.pathId else []) ++
      UInt8.ofNat totalBits :: (labels ++ maskedOctets e.pfx))

/-- The label loop of `LabeledNlri::decode`: the stack and the octets it took.
The bottom bit ends it; `budget` bounds where a label may start. -/
def readLabels (budget : Nat) : Nat → Bytes → Option (LabelStack × Nat)
  | used, a :: b :: c :: rest =>
    if budget ≤ used then none
    else
      let label : Label :=
        ⟨(a.toUInt32 <<< 12) ||| (b.toUInt32 <<< 4) ||| (c.toUInt32 >>> 4),
          (c >>> 1) &&& 0x07, 0⟩
      if c &&& 0x01 ≠ 0 then some ([label], used + 3)
      else (readLabels budget (used + 3) rest).map fun r => (label :: r.1, r.2)
  | _, _ => none

/-- The prefix behind the labels. -/
def readPrefix (family : NlriFamily) (ipBits : Nat) (rest : Bytes) : Option Prefix :=
  let n := (ipBits + 7) / 8
  if 32 < ipBits ∧ family.isIpv4 then none
  else if 128 < ipBits ∧ family.isIpv6 then none
  else if rest.length < n then none
  else if family.afi = 1 then some (.newV4 (.padded 4 (rest.take n)) (UInt8.ofNat ipBits))
  else if family.afi = 2 then some (.newV6 (.padded 16 (rest.take n)) (UInt8.ofNat ipBits))
  else none

/-- The path identifier in front of an entry. -/
def readId (addPath : Bool) (bytes : Bytes) : Option (UInt32 × Bytes) :=
  match addPath, bytes with
  | false, _ => some (0, bytes)
  | true, a :: b :: c :: d :: rest => some (fromBe32 a b c d, rest)
  | true, _ => none

/-- `LabeledNlri::decode`: the entry and what follows it. -/
def decode (family : NlriFamily) (bytes : Bytes) (addPath : Bool) :
    Option (LabeledNlri × Bytes) := do
  let (pathId, rest) ← readId addPath bytes
  match rest with
  | [] => none
  | total :: region =>
    if region.length < (total.toNat + 7) / 8 then none
    else do
      let (stack, labelOctets) ← readLabels ((total.toNat + 7) / 8) 0 region
      if total.toNat < labelOctets * 8 then none
      else do
        let ipBits := total.toNat - labelOctets * 8
        let p ← readPrefix family ipBits (region.drop labelOctets)
        some (⟨pathId, stack, p⟩, region.drop (labelOctets + (ipBits + 7) / 8))

/-- `encode_list`: an entry that cannot be encoded is left out. -/
def encodeList (entries : List LabeledNlri) (addPath : Bool) : Bytes :=
  entries.flatMap fun e => (e.encode addPath).getD []

/-- `decode_list`. -/
def decodeList (family : NlriFamily) (bytes : Bytes) (addPath : Bool) : Option (List LabeledNlri) :=
  if bytes = [] then some []
  else
    match decode family bytes addPath with
    | none => none
    | some (e, rest) =>
      if rest.length < bytes.length then (e :: ·) <$> decodeList family rest addPath else none
termination_by bytes.length

section

variable (b : Bytes) (family : NlriFamily)

/-- `encode_mp_reach` for labelled families. -/
def encodeMpReach (nextHop : MpNextHop) (entries : List LabeledNlri) (addPath : Bool) : Bytes :=
  toBe16 family.afi ++ [family.safi] ++ [UInt8.ofNat nextHop.encode.length] ++
    nextHop.encode ++ [0] ++ encodeList entries addPath

/-- `encode_mp_unreach` for labelled families. -/
def encodeMpUnreach (entries : List LabeledNlri) (addPath : Bool) : Bytes :=
  toBe16 family.afi ++ [family.safi] ++ encodeList entries addPath

/-- `decode_next_hop` is the same table as for the plain families. -/
def decodeNextHop : Option MpNextHop :=
  match MpNextHop.decode b family with
  | .ok nh => some nh
  | _ => none

/-- `decode_mp_reach` for labelled families. -/
def decodeMpReach (addPath : Bool) : Option (NlriFamily × MpNextHop × List LabeledNlri) :=
  match b with
  | h :: l :: safi :: nhLen :: rest =>
    let family : NlriFamily := ⟨fromBe16 h l, safi⟩
    if !family.isLabeledUnicast then none
    else if rest.length < nhLen.toNat then none
    else do
      let nextHop ← decodeNextHop (rest.take nhLen.toNat) family
      match rest.drop nhLen.toNat with
      | [] => some (family, nextHop, [])
      | _ :: nlri => do
          let entries ← decodeList family nlri addPath
          some (family, nextHop, entries)
  | _ => none

/-- `decode_mp_unreach` for labelled families. -/
def decodeMpUnreach (addPath : Bool) : Option (NlriFamily × List LabeledNlri) :=
  match b with
  | h :: l :: safi :: nlri =>
    let family : NlriFamily := ⟨fromBe16 h l, safi⟩
    if !family.isLabeledUnicast then none
    else do
      let entries ← decodeList family nlri addPath
      some (family, entries)
  | _ => none

end

end LabeledNlri

/-! ## The private label attribute -/

namespace PathAttributes

/-- `set_label_stack`. -/
def setLabelStack (p : PathAttributes) (stack : LabelStack) : PathAttributes :=
  p.insert ⟨PathAttrFlags.new.setOptional true, .lrMplsLabelStack, stack.encode4octet⟩

/-- `label_stack`. -/
def labelStack (p : PathAttributes) : Option LabelStack :=
  (p.get .lrMplsLabelStack).bind fun a => LabelStack.decode4octet a.value

end PathAttributes

end LibRouting.Bgp
