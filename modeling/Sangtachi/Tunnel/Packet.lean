import Sangtachi.Core.BigEndian

/-! # Tunnel packet codec

The constants of the tunnel protocol, the 20-byte header, the common checks on a
datagram and the payload codecs of the eight packet types. Bytes travel as lists of
octets; a decoder reads only behind the length test that guards it. -/
namespace Sangtachi.Packet

open Sangtachi.BigEndian

/-! ## Protocol constants -/

def tunnelMagic : U32 := 0x53414E47
def tunnelVersion : U8 := 0x01
def headerSize : ℕ := 20
def maxInner : ℕ := 1452
def maxDatagram : ℕ := headerSize + maxInner
def maxPeers : ℕ := 5
def maxCandidates : ℕ := 8
def maxNameLen : ℕ := 16
def nonceSize : ℕ := 16
def helloPayloadSize : ℕ := nonceSize + 4
def pingPayloadSize : ℕ := 8
def closePayloadSize : ℕ := 1
def dataMinPayload : ℕ := 20
def dataMaxPayload : ℕ := maxInner
def rosterHeadSize : ℕ := 5
def rosterMemberFixedSize : ℕ := 10
def rosterMinPayload : ℕ := rosterHeadSize + rosterMemberFixedSize + 1
def rosterMaxPayload : ℕ := rosterHeadSize + maxPeers * (rosterMemberFixedSize + maxNameLen)

example : maxDatagram = 1472 ∧ helloPayloadSize = 20 ∧ rosterMinPayload = 16 ∧
    rosterMaxPayload = 135 := by decide

/-! ## Types -/

inductive PacketType where
  | hello | helloAck | keepalive | data | ping | pong | close | roster
  deriving DecidableEq, Repr

def PacketType.code : PacketType → U8
  | .hello => 0x01
  | .helloAck => 0x02
  | .keepalive => 0x03
  | .data => 0x04
  | .ping => 0x05
  | .pong => 0x06
  | .close => 0x07
  | .roster => 0x08

def PacketType.all : List PacketType :=
  [.hello, .helloAck, .keepalive, .data, .ping, .pong, .close, .roster]

/-- The type a header byte names; empty outside the list of known types. -/
def PacketType.ofByte? (b : U8) : Option PacketType := PacketType.all.find? (·.code = b)

theorem ofByte?_code (t : PacketType) : PacketType.ofByte? t.code = some t := by
  cases t <;> decide

inductive PacketError where
  | short | magic | version | unknownType | length | typeLength | badReason
  | rosterDirection | rosterStale | rosterFlags | rosterName
  deriving DecidableEq, Repr

structure Header where
  magic : U32
  version : U8
  type : U8
  payloadLength : U16
  peerId : U32
  sessionEpoch : U32
  sequence : U32
  deriving DecidableEq, Repr

/-- The header fields a sender chooses; the rest is fixed by the type and the payload. -/
structure HeaderFields where
  peerId : U32
  sessionEpoch : U32
  sequence : U32
  deriving DecidableEq, Repr

abbrev Nonce := { bytes : List U8 // bytes.length = nonceSize }

/-! ## Header -/

def serializeHeader (h : Header) : List U8 :=
  write32 h.magic ++ [h.version, h.type] ++ write16 h.payloadLength ++ write32 h.peerId ++
    write32 h.sessionEpoch ++ write32 h.sequence

def deserializeHeader (bytes : List U8) : Option Header :=
  if bytes.length < headerSize then none
  else some
    { magic := read32 bytes 0
      version := read8 bytes 4
      type := read8 bytes 5
      payloadLength := read16 bytes 6
      peerId := read32 bytes 8
      sessionEpoch := read32 bytes 12
      sequence := read32 bytes 16 }

@[simp] theorem length_serializeHeader (h : Header) : (serializeHeader h).length = headerSize := rfl

theorem deserialize_serialize (h : Header) (rest : List U8) :
    deserializeHeader (serializeHeader h ++ rest) = some h := by
  have hlen : ¬ (serializeHeader h ++ rest).length < headerSize := by
    simp [length_serializeHeader]
  rw [deserializeHeader, if_neg hlen]
  cases h
  congr 1
  simp only [Header.mk.injEq]
  exact ⟨join32 _, rfl, rfl, join16 _, join32 _, join32 _, join32 _⟩

/-! ## Lengths, common checks, building -/

def payloadLengthOk (type : PacketType) (length : ℕ) : Bool :=
  match type with
  | .hello | .helloAck => length = helloPayloadSize
  | .keepalive => length = 0
  | .data => dataMinPayload ≤ length ∧ length ≤ dataMaxPayload
  | .ping | .pong => length = pingPayloadSize
  | .close => length = closePayloadSize
  | .roster => rosterMinPayload ≤ length ∧ length ≤ rosterMaxPayload

theorem length_bound_of_ok {type : PacketType} {length : ℕ} (h : payloadLengthOk type length) :
    length ≤ maxInner := by
  cases type <;> simp only [payloadLengthOk, decide_eq_true_eq] at h <;>
    simp only [helloPayloadSize, nonceSize, pingPayloadSize, closePayloadSize, dataMaxPayload,
      rosterMaxPayload, rosterHeadSize, maxPeers, rosterMemberFixedSize, maxNameLen,
      maxInner] at h ⊢ <;> omega

/-- Checks 1 to 6 on a datagram, in order; success is the header and the payload. -/
def checkCommon (datagram : List U8) : Except PacketError (Header × List U8) :=
  match deserializeHeader datagram with
  | none => .error .short
  | some header =>
    if header.magic ≠ tunnelMagic then .error .magic
    else if header.version ≠ tunnelVersion then .error .version
    else
      match PacketType.ofByte? header.type with
      | none => .error .unknownType
      | some type =>
        let actual := datagram.length - headerSize
        if header.payloadLength.toNat ≠ actual then .error .length
        else if !payloadLengthOk type actual then .error .typeLength
        else .ok (header, datagram.drop headerSize)

def headerOf (type : PacketType) (fields : HeaderFields) (payload : List U8) : Header :=
  { magic := tunnelMagic
    version := tunnelVersion
    type := type.code
    payloadLength := BitVec.ofNat 16 payload.length
    peerId := fields.peerId
    sessionEpoch := fields.sessionEpoch
    sequence := fields.sequence }

/-- The datagram bytes, or nothing when the payload length or the buffer does not allow it. -/
def buildPacket (type : PacketType) (fields : HeaderFields) (payload : List U8) (room : ℕ) :
    Option (List U8) :=
  if !payloadLengthOk type payload.length then none
  else if room < headerSize + payload.length then none
  else some (serializeHeader (headerOf type fields payload) ++ payload)

theorem buildPacket_eq {type : PacketType} {fields : HeaderFields} {payload : List U8}
    (h : payloadLengthOk type payload.length) :
    buildPacket type fields payload maxDatagram =
      some (serializeHeader (headerOf type fields payload) ++ payload) := by
  have hbound := length_bound_of_ok h
  have hroom : ¬ maxDatagram < headerSize + payload.length := by
    unfold maxDatagram
    omega
  simp [buildPacket, h, hroom]

theorem buildPacket_some {type : PacketType} {fields : HeaderFields} {payload bytes : List U8}
    {room : ℕ} (h : buildPacket type fields payload room = some bytes) :
    payloadLengthOk type payload.length ∧
      bytes = serializeHeader (headerOf type fields payload) ++ payload := by
  unfold buildPacket at h
  split_ifs at h with hok hroom
  simp only [Bool.not_eq_true', Bool.not_eq_false] at hok
  exact ⟨hok, (Option.some.inj h).symm⟩

/-- Whatever is built passes the receiver's common checks with the same header and payload. -/
theorem checkCommon_buildPacket {type : PacketType} {fields : HeaderFields}
    {payload bytes : List U8} {room : ℕ} (h : buildPacket type fields payload room = some bytes) :
    checkCommon bytes = .ok (headerOf type fields payload, payload) := by
  obtain ⟨hok, rfl⟩ := buildPacket_some h
  have hbound := length_bound_of_ok hok
  have hlen : (headerOf type fields payload).payloadLength.toNat = payload.length := by
    have : payload.length < 2 ^ 16 := lt_of_le_of_lt hbound (by decide)
    simpa [headerOf] using this
  have htype : PacketType.ofByte? (headerOf type fields payload).type = some type :=
    ofByte?_code type
  have hmagic : (headerOf type fields payload).magic = tunnelMagic := rfl
  have hversion : (headerOf type fields payload).version = tunnelVersion := rfl
  have hactual : (serializeHeader (headerOf type fields payload) ++ payload).length - headerSize =
      payload.length := by
    rw [List.length_append, length_serializeHeader, Nat.add_sub_cancel_left]
  have hdrop : (serializeHeader (headerOf type fields payload) ++ payload).drop headerSize =
      payload := by
    rw [← length_serializeHeader (headerOf type fields payload), List.drop_left]
  simp only [checkCommon, deserialize_serialize, hmagic, hversion, htype, hactual, hlen, hok, hdrop,
    ne_eq, not_true_eq_false, if_false, Bool.not_true, Bool.false_eq_true]

/-! ## HELLO and HELLO_ACK -/

structure HelloPayload where
  nonce : Nonce
  virtualIp : U32
  deriving DecidableEq, Repr

def encodeHello (p : HelloPayload) : List U8 := p.nonce.val ++ write32 p.virtualIp

def decodeHello (payload : List U8) : Except PacketError HelloPayload :=
  if h : payload.length = helloPayloadSize then
    .ok { nonce := ⟨payload.take nonceSize, by simp [h, helloPayloadSize, nonceSize]⟩
          virtualIp := read32 payload nonceSize }
  else .error .typeLength

@[simp] theorem length_encodeHello (p : HelloPayload) :
    (encodeHello p).length = helloPayloadSize := by
  simp [encodeHello, p.nonce.2, helloPayloadSize]

theorem decodeHello_encodeHello (p : HelloPayload) : decodeHello (encodeHello p) = .ok p := by
  rw [decodeHello, dif_pos (length_encodeHello p)]
  obtain ⟨⟨bytes, hbytes⟩, vip⟩ := p
  have htake : (bytes ++ write32 vip).take nonceSize = bytes := by
    rw [← hbytes, List.take_left]
  have hread : read32 (bytes ++ write32 vip) nonceSize = vip := by
    have h := read32_append bytes (write32 vip ++ []) 0
    rw [read32_write32, List.append_nil, hbytes] at h
    exact h
  simp [encodeHello, htake, hread]

/-! ## PING and PONG -/

def encodePing (pingId : U64) : List U8 := write64 pingId

def decodePing (payload : List U8) : Except PacketError U64 :=
  if payload.length = pingPayloadSize then .ok (read64 payload 0) else .error .typeLength

theorem decodePing_encodePing (pingId : U64) : decodePing (encodePing pingId) = .ok pingId := by
  have h := read64_write64 pingId []
  rw [List.append_nil] at h
  simp [decodePing, encodePing, pingPayloadSize, h]

/-! ## CLOSE -/

inductive CloseReason where
  | normal | userCancel | configError | setupFailed
  deriving DecidableEq, Repr

def CloseReason.code : CloseReason → U8
  | .normal => 0x00
  | .userCancel => 0x01
  | .configError => 0x02
  | .setupFailed => 0x03

def encodeClose (reason : CloseReason) : List U8 := [reason.code]

def decodeClose (payload : List U8) : Except PacketError CloseReason :=
  if payload.length = closePayloadSize then
    match [CloseReason.normal, .userCancel, .configError, .setupFailed].find?
        (·.code = read8 payload 0) with
    | some reason => .ok reason
    | none => .error .badReason
  else .error .typeLength

theorem decodeClose_encodeClose (reason : CloseReason) :
    decodeClose (encodeClose reason) = .ok reason := by
  cases reason <;> rfl

/-! ## ROSTER -/

def rosterFlagConnected : U8 := 0x01
def rosterFlagsReserved : U8 := 0xFE

/-- The 63 characters of a display name, as bytes. -/
def isNameByte (c : U8) : Bool :=
  (0x41 ≤ c && c ≤ 0x5A) || (0x61 ≤ c && c ≤ 0x7A) || (0x30 ≤ c && c ≤ 0x39) || c == 0x5F

def isValidName (name : List U8) : Bool :=
  !name.isEmpty && name.length ≤ maxNameLen && name.all isNameByte

structure RosterMember where
  peerId : U32
  virtualIp : U32
  connected : Bool
  name : List U8
  deriving DecidableEq, Repr

structure Roster where
  generation : U32
  members : List RosterMember
  deriving DecidableEq, Repr

structure RosterContext where
  senderIsHost : Bool
  lastGeneration : Option U32
  deriving DecidableEq, Repr

/-- One member as read: the whole flags byte is kept for the later check. -/
structure RawMember where
  peerId : U32
  virtualIp : U32
  flags : U8
  name : List U8
  deriving DecidableEq, Repr

def RawMember.toMember (m : RawMember) : RosterMember :=
  { peerId := m.peerId
    virtualIp := m.virtualIp
    connected := m.flags &&& rosterFlagConnected ≠ 0
    name := m.name }

/-- Reads `count` members from the front; empty when one does not fit or has a bad name length. -/
def readMembers : ℕ → List U8 → Option (List RawMember × List U8)
  | 0, rest => some ([], rest)
  | count + 1, rest =>
    if rest.length < rosterMemberFixedSize then none
    else
      let nameLen := (read8 rest 9).toNat
      if nameLen < 1 ∨ maxNameLen < nameLen then none
      else if rest.length - rosterMemberFixedSize < nameLen then none
      else
        let member : RawMember :=
          { peerId := read32 rest 0
            virtualIp := read32 rest 4
            flags := read8 rest 8
            name := (rest.drop rosterMemberFixedSize).take nameLen }
        match readMembers count (rest.drop (rosterMemberFixedSize + nameLen)) with
        | none => none
        | some (members, tail) => some (member :: members, tail)

/-- The five receive checks in order: sender, structure, generation, flags, names. -/
def decodeRoster (payload : List U8) (context : RosterContext) : Except PacketError Roster :=
  if !context.senderIsHost then .error .rosterDirection
  else if payload.length < rosterHeadSize then .error .typeLength
  else
    let generation := read32 payload 0
    let count := (read8 payload 4).toNat
    if count < 1 ∨ maxPeers < count then .error .typeLength
    else
      match readMembers count (payload.drop rosterHeadSize) with
      | none => .error .typeLength
      | some (members, rest) =>
        if rest ≠ [] then .error .typeLength
        else if context.lastGeneration.any (generation < ·) then .error .rosterStale
        else if members.any (fun m => m.flags &&& rosterFlagsReserved ≠ 0) then .error .rosterFlags
        else if !members.all (fun m => isValidName m.name) then .error .rosterName
        else .ok { generation := generation, members := members.map RawMember.toMember }

def encodeMember (m : RosterMember) : List U8 :=
  write32 m.peerId ++ write32 m.virtualIp ++
    [if m.connected then rosterFlagConnected else 0, BitVec.ofNat 8 m.name.length] ++ m.name

/-- The payload of the first `count` members. Nothing is written when the count, a name or the
buffer does not allow it. -/
def encodeRoster (generation : U32) (count : ℕ) (members : List RosterMember) (room : ℕ) :
    Option (List U8) :=
  if count < 1 ∨ maxPeers < count then none
  else if (members.take count).any (fun m => maxNameLen < m.name.length ∨ !isValidName m.name) then
    none
  else
    let bytes :=
      write32 generation ++ [BitVec.ofNat 8 count] ++ (members.take count).flatMap encodeMember
    if room < bytes.length then none else some bytes

end Sangtachi.Packet
