import Sangtachi.Control.Store

/-! # The five operations

Each handler makes its calls in the order of the source: the fields of the body, the clock,
the reads, the checks on what was read, the writes. The decisions on values that were read are
functions of their own. -/
namespace Sangtachi.Control

open AtomicPrograms

abbrev Handler := Prog Call Reply OpError

inductive RoomState where
  | open
  | expired
  deriving DecidableEq

def roomState (room : Option RoomItem) (nowMs : ℤ) : Option RoomState :=
  room.map fun room => if nowMs < room.expiresAtMs then .open else .expired

/-- `max(0, ceil((expires_at_ms - now) / 1000))`. -/
def expiresInS (expiresAtMs nowMs : ℤ) : ℤ := max 0 (-((-(expiresAtMs - nowMs)) / 1000))

def elapsedSinceReadyMs (pair : PairItem) (bootId : Text) (monoNs wallMs : ℤ) : ℤ :=
  if pair.readyBootId = bootId then max 0 ((monoNs - pair.readyAtMonoNs) / 1000000)
  else max 0 (wallMs - pair.readyAtWallMs)

/-- The fields that an element has only when its pair is ready. -/
structure ReadyFields where
  punchDelayMs : ℤ
  elapsedSinceReadyMs : ℤ
  candidates : List Candidate
  deriving DecidableEq

structure PeerElement where
  peerId : PeerId
  virtualIp : Text
  name : Name
  whenReady : Option ReadyFields
  deriving DecidableEq

def PeerElement.ready (e : PeerElement) : Bool := e.whenReady.isSome

def PeerItem.candidateList (peer : PeerItem) : List Candidate := peer.candidates.getD []

def peerElement (peer : PeerItem) (pair : Option PairItem) (elapsedMs : PairItem → ℤ) :
    PeerElement :=
  ⟨peer.peerId, peer.virtualIp, peer.name,
    pair.map fun pair => ⟨pair.punchDelayMs, elapsedMs pair, peer.candidateList⟩⟩

def RoomView.peer (view : RoomView) (id : PeerId) : Option PeerItem :=
  view.peers.find? fun peer => peer.peerId = id

def RoomView.pair (view : RoomView) (key : PairKey) : Option PairItem :=
  (view.pairs.find? fun row => row.1 = key).map Prod.snd

def peerHasCandidates (peer : Option PeerItem) : Bool :=
  match peer with
  | none => false
  | some peer => !peer.candidateList.isEmpty

def confirmAllowed (host other : Option PeerItem) (pair : Option PairItem) : Bool :=
  pair.isNone && peerHasCandidates host && peerHasCandidates other

inductive Verdict where
  | reclaim
  | keep
  deriving DecidableEq

def reclaimVerdict (peer : PeerItem) (hostPeerId : PeerId) (nowMs : ℤ) : Verdict :=
  if peer.peerId = hostPeerId then .keep
  else if !peer.candidateList.isEmpty then .keep
  else if peer.joinedAtMs + JOIN_REGISTER_GRACE_S * 1000 > nowMs then .keep
  else .reclaim

/-- `_uint32` on a value: a JSON integer from 0 to 2^32 - 1. -/
def asUint32 (value : Option Json) : Option PeerId :=
  match value with
  | some (.int n) => if h : 0 ≤ n ∧ n.toNat < 2 ^ 32 then some ⟨n.toNat, h.2⟩ else none
  | _ => none

theorem peerId_short : ("peer_id" ++ " 는 uint32 정수다").length ≤ 64 := by decide

def uint32 (body : List (Text × Json)) (name : String)
    (short : (name ++ " 는 uint32 정수다").length ≤ 64 := by decide) : Except OpError PeerId :=
  match asUint32 (field body name.toList) with
  | some id => .ok id
  | none => .error (badRequest (name ++ " 는 uint32 정수다") short)

theorem departed_item_short : ("departed" ++ " 의 원소는 uint32 정수다").length ≤ 64 := by decide

theorem departed_kind_short : ("departed" ++ " 는 배열이다").length ≤ 64 := by decide

theorem departed_size_short : ("departed" ++ " 가 너무 길다").length ≤ 64 := by decide

/-- `_peer_id_list`: absent is empty, at most `MAX_PEERS - 1` ids. -/
def peerIdList (body : List (Text × Json)) (name : String)
    (short : (name ++ " 의 원소는 uint32 정수다").length ≤ 64 := by decide)
    (short' : (name ++ " 는 배열이다").length ≤ 64 := by decide)
    (short'' : (name ++ " 가 너무 길다").length ≤ 64 := by decide) : Except OpError (List PeerId) :=
  match field body name.toList with
  | none => .ok []
  | some (.arr items) =>
    if MAX_PEERS - 1 < items.length then .error (badRequest (name ++ " 가 너무 길다") short'')
    else
      match items.mapM fun item => asUint32 (some item) with
      | some ids => .ok ids
      | none => .error (badRequest (name ++ " 의 원소는 uint32 정수다") short)
  | some _ => .error (badRequest (name ++ " 는 배열이다") short')

/-- `_name_keys`: the keys of the `NAME#` items that the view holds for the peer. -/
def nameKeys (view : RoomView) (target : PeerId) : List Text :=
  ((view.names.filter fun row => row.2 = target).map Prod.fst).insertionSort fun a b => textLe a b

def checkRoom (room : Option RoomItem) (nowMs : ℤ) : Except OpError RoomItem :=
  match room, roomState room nowMs with
  | some room, some .open => .ok room
  | some _, _ => .error roomExpired
  | none, _ => .error roomNotFound

structure Issued where
  roomId : RoomId
  peerId : PeerId
  peerToken : Hex32
  virtualIp : Text
  expiresInS : ℤ
  deriving DecidableEq

/-- `_issued`. -/
def issuedOf (roomId : RoomId) (peer : PeerItem) (room : RoomItem) (nowMs : ℤ) : Issued :=
  ⟨roomId, peer.peerId, peer.peerToken, peer.virtualIp, expiresInS room.expiresAtMs nowMs⟩

/-- The fields of a success response, by operation. -/
inductive Fields where
  | issued (value : Issued)
  | registered (accepted rejected : ℕ)
  | peers (ready : Bool) (peers : List PeerElement)
  | hostReport (expiresInS : ℤ) (released confirmed : List PeerId) (peers : List PeerElement)
  deriving DecidableEq

namespace Service

def nowMs : Handler ℤ := .call .nowMs .done
def monoNs : Handler ℤ := .call .monoNs .done
def bootId : Handler Text := .call .bootId .done
def newPeerId : Handler PeerId := .call .newPeerId .done
def newPeerToken : Handler Hex32 := .call .newPeerToken .done
def newRoomId : Handler RoomId := .call .newRoomId .done
def getNonce (nonce : Hex32) : Handler (Option NonceItem) := .call (.getNonce nonce) .done
def getRoom (roomId : RoomId) : Handler (Option RoomItem) := .call (.getRoom roomId) .done
def queryRoom (roomId : RoomId) : Handler RoomView := .call (.queryRoom roomId) .done

def rereadNonce (nonce : Hex32) : Handler NonceItem := do
  match ← getNonce nonce with
  | none => throw (internalError "NONCE# 를 다시 읽지 못했다")
  | some found => return found

def replay (found : NonceItem) (now : ℤ) : Handler Issued := do
  let view ← queryRoom found.roomId
  let room ← .ofExcept (checkRoom view.room now)
  match view.peer found.peerId with
  | none => throw (internalError "NONCE# 가 가리키는 피어가 방에 없다")
  | some peer => return issuedOf found.roomId peer room now

def replayJoin (found : NonceItem) (roomId : RoomId) (now : ℤ) : Handler Issued :=
  if found.roomId ≠ roomId then throw (badRequest "client_nonce 가 다른 방의 것이다")
  else replay found now

/-- The room id attempts of `create_room`, as many as are left. -/
def createAttempts (nonce : Hex32) (name : Name) (now : ℤ) (hostId : PeerId) (token : Hex32) :
    ℕ → Handler Issued
  | 0 => throw (internalError "room_id 재추첨 상한에 닿았다")
  | left + 1 => do
    let roomId ← newRoomId
    let result
      ← (.call (.createRoom roomId hostId token nonce now name) .ofExcept : Handler CreateResult)
    match result with
    | .created =>
      return ⟨roomId, hostId, token, HOST_VIRTUAL_IP, expiresInS (createdExpiresAt now) now⟩
    | .nonceExists => replay (← rereadNonce nonce) now
    | .roomIdTaken => createAttempts nonce name now hostId token left

def createRoom (body : List (Text × Json)) : Handler Issued := do
  let nonce ← .ofExcept (checkClientNonce (field body "client_nonce".toList))
  let name ← .ofExcept (checkName (field body "name".toList))
  let now ← nowMs
  match ← getNonce nonce with
  | some found => replay found now
  | none =>
    let hostId ← newPeerId
    let token ← newPeerToken
    createAttempts nonce name now hostId token MAX_ROOM_ID_ATTEMPTS

/-- The address walk of `join_room` with one drawn peer id; `redraw` goes on at the same address
with a new one. -/
def joinPool (roomId : RoomId) (room : RoomItem) (nonce : Hex32) (name : Name) (now : ℤ)
    (token : Hex32) (peerId : PeerId) (redraw : List Text → Handler Issued) :
    List Text → Handler Issued
  | [] => throw roomFull
  | vip :: rest => do
    let result
      ← (.call (.joinRoom roomId vip peerId token nonce now room.expiresAtMs name) .ofExcept :
      Handler JoinResult)
    match result with
    | .joined => return ⟨roomId, peerId, token, vip, expiresInS room.expiresAtMs now⟩
    | .nonceExists => replayJoin (← rereadNonce nonce) roomId now
    | .roomGone =>
      match ← getRoom roomId with
      | none => throw roomNotFound
      | some _ => throw roomExpired
    | .nameTaken => throw nameTaken
    | .vipTaken => joinPool roomId room nonce name now token peerId redraw rest
    | .peerIdTaken => redraw (vip :: rest)

/-- `left` is the number of peer ids that may still be drawn. -/
def joinAttempts (roomId : RoomId) (room : RoomItem) (nonce : Hex32) (name : Name) (now : ℤ)
    (token : Hex32) : (left : ℕ) → PeerId → List Text → Handler Issued
  | 0, peerId => joinPool roomId room nonce name now token peerId fun _ =>
      throw (internalError "peer_id 재추첨 상한에 닿았다")
  | left + 1, peerId => joinPool roomId room nonce name now token peerId fun pool => do
      let drawn ← newPeerId
      joinAttempts roomId room nonce name now token left drawn pool

def joinRoom (body : List (Text × Json)) : Handler Issued := do
  let nonce ← .ofExcept (checkClientNonce (field body "client_nonce".toList))
  let name ← .ofExcept (checkName (field body "name".toList))
  let roomId ← .ofExcept (normalizeRoomId (field body "room_id".toList))
  let now ← nowMs
  match ← getNonce nonce with
  | some found => replayJoin found roomId now
  | none =>
    let found ← getRoom roomId
    let room ← .ofExcept (checkRoom found now)
    let peerId ← newPeerId
    let token ← newPeerToken
    joinAttempts roomId room nonce name now token (MAX_PEER_ID_ATTEMPTS - 1) peerId PARTICIPANT_POOL

/-- `_known_peer`: a `PEER#` that is there but was not read is an error. -/
def knownPeer (view : RoomView) (target : PeerId) : Except OpError (Option PeerItem) :=
  match view.peer target with
  | some peer => .ok (some peer)
  | none =>
    if .peer target ∈ view.sks then .error (internalError "PEER# 항목을 읽을 수 없다") else .ok none

def authenticate (view : RoomView) (peerId : PeerId) (token : Hex32) : Except OpError PeerItem := do
  match ← knownPeer view peerId with
  | none => .error unauthorized
  | some peer => if peer.peerToken = token then .ok peer else .error unauthorized

/-- `_elements`: the clocks are read when the response is built. -/
def elements (view : RoomView) (caller : PeerId) (others : List PeerItem) :
    Handler (List PeerElement) := do
  let boot ← bootId
  let mono ← monoNs
  let wall ← nowMs
  return others.map fun peer =>
    peerElement peer (view.pair (pairSk caller peer.peerId)) fun pair =>
      elapsedSinceReadyMs pair boot mono wall

def registerCandidate (body : List (Text × Json)) : Handler Fields := do
  let peerId ← .ofExcept (uint32 body "peer_id")
  let token ← .ofExcept (checkPeerToken (field body "peer_token".toList))
  let (stored, rejected) ← .ofExcept (sanitizeCandidates (field body "candidates".toList))
  let roomId ← .ofExcept (normalizeRoomId (field body "room_id".toList))
  let now ← nowMs
  let view ← queryRoom roomId
  let _ ← .ofExcept (checkRoom view.room now)
  let _ ← .ofExcept (authenticate view peerId token)
  let registered ← (.call (.registerCandidates roomId peerId token stored) .done : Handler Bool)
  if registered then return .registered stored.length rejected
  else throw unauthorized

def getPeers (body : List (Text × Json)) : Handler Fields := do
  let peerId ← .ofExcept (uint32 body "peer_id")
  let token ← .ofExcept (checkPeerToken (field body "peer_token".toList))
  let roomId ← .ofExcept (normalizeRoomId (field body "room_id".toList))
  let now ← nowMs
  let view ← queryRoom roomId
  let room ← .ofExcept (checkRoom view.room now)
  let _ ← .ofExcept (authenticate view peerId token)
  let others ← .ofExcept (
    if peerId = room.hostPeerId then .ok (view.peers.filter fun peer => peer.peerId ≠ peerId)
    else
      match view.peer room.hostPeerId with
      | none => .error (internalError "방에 호스트의 PEER# 가 없다")
      | some host => .ok [host])
  let found ← elements view peerId others
  return .peers (found.any PeerElement.ready) found

/-- `_departed_target`: the address and the nonce of a departed peer, `none` if it is gone. -/
def departedTarget (view : RoomView) (target : PeerId) :
    Except OpError (Option (Text × Option Hex32)) :=
  match view.peer target with
  | some peer => .ok (some (peer.virtualIp, some peer.clientNonce))
  | none =>
    if .peer target ∈ view.sks then .error (internalError "PEER# 항목을 읽을 수 없다") else .ok none

/-- What a release or a reclaim took away: the ids, and the sort keys that renewal leaves out. -/
abbrev Removed := List PeerId × List SortKey

def releaseDeparted (roomId : RoomId) (view : RoomView) (hostId : PeerId) :
    List PeerId → Removed → Handler Removed
  | [], removed => return removed
  | target :: rest, removed =>
    if target = hostId then releaseDeparted roomId view hostId rest removed
    else do
      match ← .ofExcept (departedTarget view target) with
      | none => releaseDeparted roomId view hostId rest removed
      | some (vip, nonce) =>
        let keys := nameKeys view target
        let gone
          ← (.call (.releasePeer roomId target vip hostId nonce keys) .ofExcept : Handler Bool)
        if gone then
          releaseDeparted roomId view hostId rest
            (removed.1 ++ [target],
              removed.2 ++ [.peer target, .vip vip, .pair (pairSk hostId target)] ++ keys.map .name)
        else releaseDeparted roomId view hostId rest removed

def reclaim (roomId : RoomId) (hostId : PeerId) (now : ℤ) (skip : List PeerId) (view : RoomView) :
    List PeerItem → Removed → Handler Removed
  | [], removed => return removed
  | peer :: rest, removed =>
    if peer.peerId ∈ skip then reclaim roomId hostId now skip view rest removed
    else
      match reclaimVerdict peer hostId now with
      | .keep => reclaim roomId hostId now skip view rest removed
      | .reclaim => do
        let keys := nameKeys view peer.peerId
        let gone ← (.call (.reclaimPeer roomId peer.peerId peer.virtualIp peer.clientNonce now keys)
          .ofExcept : Handler Bool)
        if gone then
          reclaim roomId hostId now skip view rest
            (removed.1 ++ [peer.peerId],
              removed.2 ++ [.peer peer.peerId, .vip peer.virtualIp] ++ keys.map .name)
        else reclaim roomId hostId now skip view rest removed

def confirm (roomId : RoomId) (view : RoomView) (room : RoomItem) (host : PeerItem)
    (skip : List PeerId) :
    List PeerId → List PeerId → Handler (List PeerId)
  | [], confirmed => return confirmed
  | target :: rest, confirmed =>
    if target ∈ skip then confirm roomId view room host skip rest confirmed
    else if target = host.peerId then confirm roomId view room host skip rest confirmed
    else do
      let other ← .ofExcept (knownPeer view target)
      if confirmAllowed (some host) other (view.pair (pairSk host.peerId target)) then
        let wall ← nowMs
        let mono ← monoNs
        let boot ← bootId
        let result ← (.call (.confirmPair roomId host.peerId target wall mono boot room.expiresAtMs)
          .ofExcept : Handler ConfirmResult)
        match result with
        | .confirmed => confirm roomId view room host skip rest (confirmed ++ [target])
        | .alreadyConfirmed => confirm roomId view room host skip rest confirmed
        | .notEligible => confirm roomId view room host skip rest confirmed
      else confirm roomId view room host skip rest confirmed

def renewItems (roomId : RoomId) (ttl : ℤ) : List SortKey → Handler Unit
  | [] => return ()
  | .room :: rest => renewItems roomId ttl rest
  | sk :: rest => .call (.renewItem roomId sk ttl) fun _ => renewItems roomId ttl rest

/-- `Store.renew`, and `room_expired` where it answers `False`. -/
def renew (roomId : RoomId) (view : RoomView) (removed : List SortKey) (now : ℤ) :
    Handler Unit := do
  let newExpires := now + ROOM_LEASE_S * 1000
  let renewed ← (.call (.renewRoom roomId now newExpires) .done : Handler Bool)
  if renewed then renewItems roomId (ttlFor newExpires) (view.sks.filter fun sk => sk ∉ removed)
  else throw roomExpired

def hostReport (body : List (Text × Json)) : Handler Fields := do
  let peerId ← .ofExcept (uint32 body "peer_id")
  let token ← .ofExcept (checkPeerToken (field body "peer_token".toList))
  let departed ← .ofExcept (peerIdList body "departed")
  let confirms ← .ofExcept (peerIdList body "confirm")
  let roomId ← .ofExcept (normalizeRoomId (field body "room_id".toList))
  let now ← nowMs
  let view ← queryRoom roomId
  let room ← .ofExcept (checkRoom view.room now)
  if peerId ≠ room.hostPeerId then throw unauthorized
  else
    let host ← .ofExcept (authenticate view peerId token)
    let gone ← releaseDeparted roomId view room.hostPeerId departed ([], [])
    let removed ← reclaim roomId room.hostPeerId now (departed ++ gone.1) view view.peers gone
    let confirmed ← confirm roomId view room host (departed ++ removed.1) confirms []
    renew roomId view removed.2 now
    let after ← queryRoom roomId
    match after.room with
    | none => throw (internalError "갱신한 방을 다시 읽지 못했다")
    | some renewed =>
      let found ← elements after room.hostPeerId
        (after.peers.filter fun peer => peer.peerId ≠ room.hostPeerId)
      return .hostReport (expiresInS renewed.expiresAtMs now) removed.1 confirmed found

/-- A request as the parser hands it over. -/
structure Request where
  op : Text
  body : Json

def dispatch (req : Request) : Handler Fields :=
  let handler : Option (List (Text × Json) → Handler Fields) :=
    if req.op = "create_room".toList then some fun body => do return .issued (← createRoom body)
    else if req.op = "join_room".toList then some fun body => do return .issued (← joinRoom body)
    else if req.op = "register_candidate".toList then some registerCandidate
    else if req.op = "get_peers".toList then some getPeers
    else if req.op = "host_report".toList then some hostReport
    else none
  match handler, req.body with
  | none, _ => throw unknownOp
  | some run, .obj members => run members
  | some _, _ => throw (badRequest "본문은 JSON 객체다")

end Service

end Sangtachi.Control
