import Sangtachi.Peer.Session

/-! # The control operations of the client

The request bodies, what the responses say, and how they are classified. A text is a list of
bytes. A body is the JSON object before it is written out: the writer is a function of it. -/
namespace Sangtachi.Lobby

open Sangtachi.BigEndian Sangtachi.Packet Sangtachi.Peer

abbrev Bytes := List U8

def ascii (text : String) : Bytes := text.toList.map fun c => BitVec.ofNat 8 c.toNat

def decimal (n : ℕ) : Bytes := ascii (toString n)

/-! ## Constants -/

def maxOthers : ℕ := maxPeers - 1
def maxCandidates : ℕ := 8
def hostReportOpenMs : Millis := 5000
def hostReportFullMs : Millis := 30000
def retryIntervalMs : Millis := 1000
def maxTries : ℕ := 3
def getPeersPollMs : Millis := 500
def getPeersDeadlineMs : Millis := 60000

/-! ## Values -/

inductive Op where
  | createRoom | joinRoom | registerCandidate | getPeers | hostReport
  deriving DecidableEq, Repr

def opName : Op → String
  | .createRoom => "create_room"
  | .joinRoom => "join_room"
  | .registerCandidate => "register_candidate"
  | .getPeers => "get_peers"
  | .hostReport => "host_report"

def roomAlphabet : Bytes := ascii "ABCDEFGHJKLMNPQRSTUVWXYZ23456789"
def roomLength : ℕ := 6

def isLowerHex32 (text : Bytes) : Bool :=
  text.length = 32 && text.all fun c => (0x30 ≤ c && c ≤ 0x39) || (0x61 ≤ c && c ≤ 0x66)

def isRoomIdExact (text : Bytes) : Bool := text.length = roomLength && text.all (· ∈ roomAlphabet)

def toUpper (c : U8) : U8 := if 0x61 ≤ c ∧ c ≤ 0x7A then c - 0x20 else c

/-- A room id as a user types it, in either case. -/
def isRoomIdInput (text : Bytes) : Bool :=
  text.length = roomLength && text.all fun c => toUpper c ∈ roomAlphabet

/-- 32 lower-case hexadecimal digits, known to this process and the server only. -/
structure PeerToken where
  hex : Bytes
  valid : isLowerHex32 hex = true
  deriving DecidableEq

/-- Drawn once for each attempt, and sent again with each retry. -/
structure ClientNonce where
  hex : Bytes
  valid : isLowerHex32 hex = true
  deriving DecidableEq

inductive CandidateKind where
  | local | reflexive
  deriving DecidableEq, Repr

structure Candidate where
  endpoint : Endpoint
  kind : CandidateKind
  deriving DecidableEq, Repr

/-! ## Request bodies -/

/-- The body of a request; `empty` is the text of a request that is over. -/
inductive Body where
  | empty
  | createRoom (nonce : ClientNonce) (name : Bytes)
  | joinRoom (roomId : Bytes) (nonce : ClientNonce) (name : Bytes)
  | registerCandidate (roomId : Bytes) (peerId : U32) (token : PeerToken)
    (candidates : List Candidate)
  | getPeers (roomId : Bytes) (peerId : U32) (token : PeerToken)
  | hostReport (roomId : Bytes) (peerId : U32) (token : PeerToken) (departed confirm : List U32)
  deriving DecidableEq

def createRoomBody (nonce : ClientNonce) (name : Bytes) : Option Body :=
  if !isValidName name then none else some (.createRoom nonce name)

def joinRoomBody (roomId : Bytes) (nonce : ClientNonce) (name : Bytes) : Option Body :=
  if !isRoomIdInput roomId || !isValidName name then none else some (.joinRoom roomId nonce name)

def registerCandidateBody (roomId : Bytes) (peerId : U32) (token : PeerToken)
    (candidates : List Candidate) :
    Option Body :=
  if !isRoomIdInput roomId then none
  else if candidates = [] ∨ maxCandidates < candidates.length then none
  else some (.registerCandidate roomId peerId token candidates)

def getPeersBody (roomId : Bytes) (peerId : U32) (token : PeerToken) : Option Body :=
  if !isRoomIdInput roomId then none else some (.getPeers roomId peerId token)

def hostReportBody (roomId : Bytes) (peerId : U32) (token : PeerToken)
    (departed confirm : List U32) :
    Option Body :=
  if !isRoomIdInput roomId then none
  else if maxOthers < departed.length ∨ maxOthers < confirm.length then none
  else some (.hostReport roomId peerId token departed confirm)

/-! ## Responses -/

inductive Outcome where
  | success | definite | transient
  deriving DecidableEq, Repr

inductive Failure where
  | none | transport | badRequest | methodNotAllowed | unknownOp | lengthRequired | tooLarge
    | roomNotFound
  | roomExpired | roomFull | nameTaken | unauthorized | rateLimited | internal
    | unavailable | unknownCode
  | selfInPeers
  deriving DecidableEq, Repr

def Failure.token : Failure → String
  | .none => "-"
  | .transport => "transport"
  | .badRequest => "bad_request"
  | .methodNotAllowed => "method_not_allowed"
  | .unknownOp => "unknown_op"
  | .lengthRequired => "length_required"
  | .tooLarge => "too_large"
  | .roomNotFound => "room_not_found"
  | .roomExpired => "room_expired"
  | .roomFull => "room_full"
  | .nameTaken => "name_taken"
  | .unauthorized => "unauthorized"
  | .rateLimited => "rate_limited"
  | .internal => "internal"
  | .unavailable => "unavailable"
  | .unknownCode => "unknown_code"
  | .selfInPeers => "self_in_peers"

structure Reply (α : Type) where
  outcome : Outcome := .transient
  failure : Failure := .transport
  value : Option α := none
  deriving DecidableEq

def transportFailure (α : Type) : Reply α := {}

structure Issued where
  roomId : Bytes
  peerId : U32
  peerToken : PeerToken
  virtualIp : U32
  expiresInS : ℤ
  deriving DecidableEq

structure Registered where
  accepted : U32
  rejected : U32
  deriving DecidableEq, Repr

/-- The last three fields mean something when `ready` only. -/
structure PeerView where
  peerId : U32
  virtualIp : U32
  name : Bytes
  ready : Bool := false
  punchDelayMs : U32 := 0
  elapsedSinceReadyMs : ℤ := 0
  candidates : List Candidate := []
  deriving DecidableEq, Repr

structure Peers where
  ready : Bool
  peers : List PeerView
  deriving DecidableEq, Repr

structure HostReport where
  expiresInS : ℤ
  released : List U32
  confirmed : List U32
  peers : List PeerView
  deriving DecidableEq, Repr

/-! ## Candidates that were received -/

def maxBroadcastPrefix : ℕ := 30

/-- One address of this computer with its prefix. -/
structure OwnSubnet where
  address : U32
  prefixLength : ℕ
  fits : prefixLength ≤ maxBroadcastPrefix ∧ address >>> 24 ≠ 127
  deriving DecidableEq

def OwnSubnet.broadcast (e : OwnSubnet) : U32 :=
  let mask := if e.prefixLength = 0 then 0 else BitVec.allOnes 32 <<< (32 - e.prefixLength)
  e.address ||| ~~~mask

def blocksBroadcast (own : List OwnSubnet) (address : U32) : Bool := own.any (·.broadcast = address)

def rejectedByHygiene (own : List OwnSubnet) (c : Candidate) : Bool :=
  c.endpoint.port = 0 || c.endpoint.address >>> 28 = 0xE || c.endpoint.address >>> 28 = 0xF ||
    c.endpoint.address >>> 24 = 0 || c.endpoint.address >>> 24 = 127 ||
      blocksBroadcast own c.endpoint.address

/-- Of several candidates with one endpoint the first is kept. -/
def keepCandidate (own : List OwnSubnet) (out : List Candidate) (c : Candidate) : List Candidate :=
  if rejectedByHygiene own c then out
  else if out.any (·.endpoint = c.endpoint) then out
  else out ++ [c]

def sanitizeReceivedCandidates (received : List Candidate) (own : List OwnSubnet) :
    List Candidate :=
  (received.foldl (keepCandidate own) []).take maxCandidates

def isPunchReady (peer : PeerView) : Bool := peer.ready && !peer.candidates.isEmpty

inductive HostReportAction where
  | nextCycle | stop
  deriving DecidableEq, Repr

def hostReportAction (outcome : Outcome) (failure : Failure) : HostReportAction :=
  if outcome = .success ∨ outcome = .transient then .nextCycle
  else if failure = .rateLimited then .nextCycle
  else .stop

/-! ## Fields of log lines -/

structure LogField where
  key : String
  value : Bytes
  deriving DecidableEq, Repr

def formatIpv4 (address : U32) : Bytes :=
  decimal ((address >>> 24).toNat % 256) ++ ascii "." ++
    decimal ((address >>> 16).toNat % 256) ++ ascii "." ++
    decimal ((address >>> 8).toNat % 256) ++ ascii "." ++ decimal (address.toNat % 256)

def endpointText (e : Endpoint) : Bytes := formatIpv4 e.address ++ ascii ":" ++ decimal e.port.toNat

def controlResultFields (op : Op) (outcome : Outcome) (failure : Failure) : List LogField :=
  [⟨"op", ascii (opName op)⟩, ⟨"ok", ascii (if outcome = .success then "true" else "false")⟩,
    ⟨"error", ascii failure.token⟩]

def controlPeersFields (peer : PeerView) : List LogField :=
  [⟨"peer_id", decimal peer.peerId.toNat⟩, ⟨"virtual_ip", formatIpv4 peer.virtualIp⟩,
    ⟨"candidates", (ascii ",").intercalate
      ((sanitizeReceivedCandidates peer.candidates []).map (endpointText ·.endpoint))⟩]

end Sangtachi.Lobby
