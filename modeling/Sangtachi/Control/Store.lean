import Mathlib.Data.List.AList
import Mathlib.Data.List.Sort
import Sangtachi.Control.Candidates
import Sangtachi.Core.AtomicPrograms

/-! # The store

One table of items, the reads and the conditional writes on it. A write method of the source
is one call; `renew` is a program of calls. Time-to-live deletion starts a day after a room
has expired and is not modelled. -/
namespace Sangtachi.Control

open AtomicPrograms

def HOST_VIRTUAL_IP : Text := "10.100.0.1".toList

def PARTICIPANT_POOL : List Text :=
  (List.range' 2 (MAX_PEERS - 1)).map fun n => "10.100.0.".toList ++ Nat.toDigits 10 n

example : PARTICIPANT_POOL.getLast? = some "10.100.0.5".toList := by decide

structure RoomItem where
  createdAtMs : ℤ
  expiresAtMs : ℤ
  hostPeerId : PeerId
  ttl : ℤ
  deriving DecidableEq

/-- `candidates` is absent until the peer has registered. -/
structure PeerItem where
  peerId : PeerId
  peerToken : Hex32
  virtualIp : Text
  name : Name
  clientNonce : Hex32
  joinedAtMs : ℤ
  ttl : ℤ
  candidates : Option (List Candidate) := none
  deriving DecidableEq

structure Claim where
  peerId : PeerId
  ttl : ℤ
  deriving DecidableEq

structure PairItem where
  readyAtWallMs : ℤ
  readyAtMonoNs : ℤ
  readyBootId : Text
  punchDelayMs : ℤ
  ttl : ℤ
  deriving DecidableEq

structure NonceItem where
  roomId : RoomId
  peerId : PeerId
  ttl : ℤ
  deriving DecidableEq

abbrev PairKey := PeerId × PeerId

/-- `PAIR#<lo>-<hi>`: the two ids in ascending order. -/
def pairSk (a b : PeerId) : PairKey := if a ≤ b then (a, b) else (b, a)

/-- The items by the kind of their key. The first part of a key is the partition. -/
structure Table where
  rooms : AList fun _ : RoomId => RoomItem
  peers : AList fun _ : RoomId × PeerId => PeerItem
  vips : AList fun _ : RoomId × Text => Claim
  names : AList fun _ : RoomId × Text => Claim
  pairs : AList fun _ : RoomId × PairKey => PairItem
  nonces : AList fun _ : Hex32 => NonceItem

def Table.empty : Table := ⟨∅, ∅, ∅, ∅, ∅, ∅⟩

inductive SortKey where
  | room
  | peer (id : PeerId)
  | vip (ip : Text)
  | name (key : Text)
  | pair (key : PairKey)
  deriving DecidableEq

def SortKey.text : SortKey → Text
  | .room => "ROOM".toList
  | .peer id => "PEER#".toList ++ Nat.toDigits 10 id.val
  | .vip ip => "VIP#".toList ++ ip
  | .name key => "NAME#".toList ++ key
  | .pair key =>
    "PAIR#".toList ++ Nat.toDigits 10 key.1.val ++ "-".toList ++ Nat.toDigits 10 key.2.val

/-- `RoomView`: one query of a room. -/
structure RoomView where
  room : Option RoomItem
  peers : List PeerItem
  vips : List (Text × PeerId)
  names : List (Text × PeerId)
  pairs : List (PairKey × PairItem)
  sks : List SortKey

/-- The rows of one kind in a partition, in the order of their sort keys. -/
def partition {κ ν : Type} (roomId : RoomId) (sk : κ → SortKey)
    (rows : List (Sigma fun _ : RoomId × κ => ν)) : List (κ × ν) :=
  (rows.filterMap fun row => if row.1.1 = roomId then some (row.1.2, row.2) else none).insertionSort
    fun a b => textLe (sk a.1).text (sk b.1).text

/-- The kinds come in the order of their prefixes: NAME#, PAIR#, PEER#, ROOM, VIP#. -/
def queryRoom (t : Table) (roomId : RoomId) : RoomView :=
  let names := partition roomId .name t.names.entries
  let pairs := partition roomId .pair t.pairs.entries
  let peers := partition roomId .peer t.peers.entries
  let vips := partition roomId .vip t.vips.entries
  { room := t.rooms.lookup roomId
    peers := peers.map Prod.snd
    vips := vips.map fun row => (row.1, row.2.peerId)
    names := names.map fun row => (row.1, row.2.peerId)
    pairs := pairs
    sks := names.map (fun row => .name row.1) ++ pairs.map (fun row => .pair row.1) ++
      peers.map (fun row => .peer row.1) ++ (t.rooms.lookup roomId).toList.map (fun _ => .room) ++
      vips.map (fun row => .vip row.1) }

/-! ## Transactions -/

inductive Kind where
  | nonce
  | roomCheck
  | vip
  | name
  | peer
  | roomPut
  | peerCheck
  | pair
  | other
  deriving DecidableEq

inductive Reason where
  | conditionalCheckFailed
  | none
  | other
  deriving DecidableEq

def JOIN_PRIORITY : List Kind := [.roomCheck, .name, .vip, .peer]
def CREATE_PRIORITY : List Kind := [.roomPut]
def CONFIRM_PRIORITY : List Kind := [.peerCheck, .pair]
def DELETE_PRIORITY : List Kind := [.peer]

/-- The cancellation reasons are matched with the items of the transaction by position. A failed
nonce condition wins over everything else. -/
def classifyCancel (layout : List Kind) (reasons : List Reason) (priority : List Kind) :
    Except OpError Kind :=
  if reasons.length ≠ layout.length then
    .error (internalError "트랜잭션 취소 사유를 위치로 읽을 수 없다")
  else
    let failed := (layout.zip reasons).filterMap fun entry =>
      if entry.2 = .conditionalCheckFailed then some entry.1 else none
    if .nonce ∈ failed then .ok .nonce
    else if .other ∈ reasons then
      .error (internalError "트랜잭션이 조건 실패가 아닌 사유로 취소됐다")
    else
      match priority.find? (fun kind => decide (kind ∈ failed)) with
      | some kind => .ok kind
      | none => .error (internalError "트랜잭션 취소 사유를 판정할 수 없다")

/-- One item of a transaction: what it is and whether its condition holds. -/
structure TransactItem where
  kind : Kind
  holds : Bool

/-- `conflicts` are the positions that the store cancels for a reason other than a condition. -/
def reasonsFor (conflicts : List ℕ) (items : List TransactItem) : List Reason :=
  items.mapIdx fun i item =>
    if i ∈ conflicts then .other else if item.holds then .none else .conditionalCheckFailed

/-- All writes of a transaction or none of them; `none` for a kind is a commit. -/
def transact (conflicts : List ℕ) (items : List TransactItem) (priority : List Kind)
    (t committed : Table) : Except OpError (Option Kind) × Table :=
  let reasons := reasonsFor conflicts items
  if reasons.all (· = .none) then (.ok none, committed)
  else ((classifyCancel (items.map TransactItem.kind) reasons priority).map some, t)

/-- A kind outside the result table of a method. -/
def unknownKind : OpError := internalError "internal"

def createdExpiresAt (nowMs : ℤ) : ℤ := nowMs + ROOM_LEASE_S * 1000

def ttlFor (expiresAtMs : ℤ) : ℤ := expiresAtMs / 1000 + STORAGE_GRACE_S

inductive CreateResult where
  | created
  | nonceExists
  | roomIdTaken
  deriving DecidableEq

inductive JoinResult where
  | joined
  | nonceExists
  | roomGone
  | nameTaken
  | vipTaken
  | peerIdTaken
  deriving DecidableEq

inductive ConfirmResult where
  | confirmed
  | alreadyConfirmed
  | notEligible
  deriving DecidableEq

namespace Table

/-- The table with a new peer's own four items; `ttl` is one for all of them. -/
def putPeer (t : Table) (roomId : RoomId) (peer : PeerItem) : Table :=
  { t with
    peers := t.peers.insert (roomId, peer.peerId) peer
    vips := t.vips.insert (roomId, peer.virtualIp) ⟨peer.peerId, peer.ttl⟩
    names := t.names.insert (roomId, nameKey peer.name) ⟨peer.peerId, peer.ttl⟩
    nonces := t.nonces.insert peer.clientNonce ⟨roomId, peer.peerId, peer.ttl⟩ }

def putRoom (t : Table) (roomId : RoomId) (room : RoomItem) : Table :=
  { t with rooms := t.rooms.insert roomId room }

def newRoom (nowMs : ℤ) (hostPeerId : PeerId) : RoomItem :=
  ⟨nowMs, createdExpiresAt nowMs, hostPeerId, ttlFor (createdExpiresAt nowMs)⟩

def createRoom (conflicts : List ℕ) (roomId : RoomId) (hostPeerId : PeerId)
    (peerToken clientNonce : Hex32) (nowMs : ℤ) (name : Name) (t : Table) :
    Except OpError CreateResult × Table :=
  let host : PeerItem :=
    ⟨hostPeerId, peerToken, HOST_VIRTUAL_IP, name, clientNonce, nowMs,
      ttlFor (createdExpiresAt nowMs), none⟩
  let items : List TransactItem := [
    ⟨.roomPut, (t.rooms.lookup roomId).isNone⟩,
    ⟨.peer, (t.peers.lookup (roomId, hostPeerId)).isNone⟩,
    ⟨.vip, (t.vips.lookup (roomId, HOST_VIRTUAL_IP)).isNone⟩,
    ⟨.name, (t.names.lookup (roomId, nameKey name)).isNone⟩,
    ⟨.nonce, (t.nonces.lookup clientNonce).isNone⟩]
  let (kind, t') := transact conflicts items CREATE_PRIORITY t
    ((t.putRoom roomId (newRoom nowMs hostPeerId)).putPeer roomId host)
  (kind.bind fun
    | none => .ok .created
    | some .nonce => .ok .nonceExists
    | some .roomPut => .ok .roomIdTaken
    | some _ => .error unknownKind, t')

/-- `_JOIN_ROOM_IF` and `_RENEW_ROOM_IF`. -/
def roomOpen (t : Table) (roomId : RoomId) (nowMs : ℤ) : Bool :=
  match t.rooms.lookup roomId with
  | some room => nowMs < room.expiresAtMs
  | none => false

def joinRoom (conflicts : List ℕ) (roomId : RoomId) (virtualIp : Text) (peerId : PeerId)
    (peerToken clientNonce : Hex32) (nowMs expiresAtMs : ℤ) (name : Name) (t : Table) :
    Except OpError JoinResult × Table :=
  let peer : PeerItem :=
    ⟨peerId, peerToken, virtualIp, name, clientNonce, nowMs, ttlFor expiresAtMs, none⟩
  let items : List TransactItem := [
    ⟨.roomCheck, t.roomOpen roomId nowMs⟩,
    ⟨.vip, (t.vips.lookup (roomId, virtualIp)).isNone⟩,
    ⟨.name, (t.names.lookup (roomId, nameKey name)).isNone⟩,
    ⟨.peer, (t.peers.lookup (roomId, peerId)).isNone⟩,
    ⟨.nonce, (t.nonces.lookup clientNonce).isNone⟩]
  let (kind, t') := transact conflicts items JOIN_PRIORITY t (t.putPeer roomId peer)
  (kind.bind fun
    | none => .ok .joined
    | some .nonce => .ok .nonceExists
    | some .roomCheck => .ok .roomGone
    | some .name => .ok .nameTaken
    | some .vip => .ok .vipTaken
    | some .peer => .ok .peerIdTaken
    | some _ => .error unknownKind, t')

def registerCandidates (roomId : RoomId) (peerId : PeerId) (peerToken : Hex32)
    (candidates : List Candidate) (t : Table) : Bool × Table :=
  match t.peers.lookup (roomId, peerId) with
  | some peer =>
    if peer.peerToken = peerToken then
      (true,
        { t with peers := t.peers.insert (roomId,
          peerId) { peer with candidates := some candidates } })
    else (false, t)
  | none => (false, t)

/-- The deletes that ride on the delete of a `PEER#`. -/
def dropPeer (t : Table) (roomId : RoomId) (peerId : PeerId) (virtualIp : Text)
    (nameKeys : List Text) (clientNonce : Option Hex32) :
    Table :=
  { t with
    peers := t.peers.erase (roomId, peerId)
    vips := t.vips.erase (roomId, virtualIp)
    names := nameKeys.foldl (fun names key => names.erase (roomId, key)) t.names
    nonces := match clientNonce with
      | some nonce => t.nonces.erase nonce
      | none => t.nonces }

def dropPair (t : Table) (roomId : RoomId) (key : PairKey) : Table :=
  { t with pairs := t.pairs.erase (roomId, key) }

/-- `True` only when the transaction committed. -/
def committedOnly (kind : Except OpError (Option Kind)) : Except OpError Bool := kind.map (· = none)

def releasePeer (conflicts : List ℕ) (roomId : RoomId) (peerId : PeerId) (virtualIp : Text)
    (hostPeerId : PeerId) (clientNonce : Option Hex32) (nameKeys : List Text) (t : Table) :
    Except OpError Bool × Table :=
  let items : List TransactItem :=
    [⟨.peer, (t.peers.lookup (roomId, peerId)).isSome⟩, ⟨.other, true⟩] ++
      nameKeys.map (fun _ => ⟨.other, true⟩) ++ [⟨.other, true⟩] ++
      clientNonce.toList.map (fun _ => ⟨.other, true⟩)
  let (kind, t') := transact conflicts items DELETE_PRIORITY t
    ((t.dropPeer roomId peerId virtualIp nameKeys clientNonce).dropPair roomId
      (pairSk hostPeerId peerId))
  (committedOnly kind, t')

/-- `_RECLAIM_IF`. -/
def reclaimable (t : Table) (roomId : RoomId) (peerId : PeerId) (cutoff : ℤ) : Bool :=
  match t.peers.lookup (roomId, peerId) with
  | some peer => (peer.candidates.getD []).isEmpty && peer.joinedAtMs ≤ cutoff
  | none => false

def reclaimPeer (conflicts : List ℕ) (roomId : RoomId) (peerId : PeerId) (virtualIp : Text)
    (clientNonce : Hex32) (nowMs : ℤ) (nameKeys : List Text) (t : Table) :
    Except OpError Bool × Table :=
  let cutoff := nowMs - JOIN_REGISTER_GRACE_S * 1000
  let items : List TransactItem :=
    [⟨.peer, t.reclaimable roomId peerId cutoff⟩, ⟨.other, true⟩] ++
      nameKeys.map (fun _ => ⟨.other, true⟩) ++ [⟨.other, true⟩]
  let (kind, t') := transact conflicts items DELETE_PRIORITY t
    (t.dropPeer roomId peerId virtualIp nameKeys (some clientNonce))
  (committedOnly kind, t')

/-- `_CONFIRM_HOST_IF` and `_CONFIRM_OTHER_IF`. -/
def hasCandidates (t : Table) (roomId : RoomId) (peerId : PeerId) : Bool :=
  match t.peers.lookup (roomId, peerId) with
  | some peer => !(peer.candidates.getD []).isEmpty
  | none => false

def confirmPair (conflicts : List ℕ) (roomId : RoomId) (hostPeerId otherPeerId : PeerId)
    (readyAtWallMs readyAtMonoNs : ℤ) (readyBootId : Text) (expiresAtMs : ℤ) (t : Table) :
    Except OpError ConfirmResult × Table :=
  let key := pairSk hostPeerId otherPeerId
  let pair : PairItem :=
    ⟨readyAtWallMs, readyAtMonoNs, readyBootId, PUNCH_DELAY_MS, ttlFor expiresAtMs⟩
  let items : List TransactItem := [
    ⟨.peerCheck, t.hasCandidates roomId hostPeerId⟩,
    ⟨.peerCheck, t.hasCandidates roomId otherPeerId⟩,
    ⟨.pair, (t.pairs.lookup (roomId, key)).isNone⟩]
  let (kind, t') := transact conflicts items CONFIRM_PRIORITY t
    { t with pairs := t.pairs.insert (roomId, key) pair }
  (kind.bind fun
    | none => .ok .confirmed
    | some .peerCheck => .ok .notEligible
    | some .pair => .ok .alreadyConfirmed
    | some _ => .error unknownKind, t')

def renewRoom (roomId : RoomId) (nowMs newExpiresAtMs : ℤ) (t : Table) : Bool × Table :=
  match t.rooms.lookup roomId with
  | some room =>
    if nowMs < room.expiresAtMs then
      (true, t.putRoom roomId
        { room with expiresAtMs := newExpiresAtMs, ttl := ttlFor newExpiresAtMs })
    else (false, t)
  | none => (false, t)

/-- `_renew_item`: an item that is gone stays gone. -/
def renewItem (roomId : RoomId) (sk : SortKey) (ttl : ℤ) (t : Table) : Bool × Table :=
  match sk with
  | .room =>
    match t.rooms.lookup roomId with
    | some room => (true, t.putRoom roomId { room with ttl := ttl })
    | none => (false, t)
  | .peer id =>
    match t.peers.lookup (roomId, id) with
    | some peer => (true, { t with peers := t.peers.insert (roomId, id) { peer with ttl := ttl } })
    | none => (false, t)
  | .vip ip =>
    match t.vips.lookup (roomId, ip) with
    | some claim => (true, { t with vips := t.vips.insert (roomId, ip) { claim with ttl := ttl } })
    | none => (false, t)
  | .name key =>
    match t.names.lookup (roomId, key) with
    | some claim =>
      (true, { t with names := t.names.insert (roomId, key) { claim with ttl := ttl } })
    | none => (false, t)
  | .pair key =>
    match t.pairs.lookup (roomId, key) with
    | some pair => (true, { t with pairs := t.pairs.insert (roomId, key) { pair with ttl := ttl } })
    | none => (false, t)

end Table

/-! ## Calls -/

/-- What one call takes from its surroundings. -/
structure Reading where
  wallMs : ℤ
  monoNs : ℤ
  bootId : Text
  peerId : { id : PeerId // id.val ≠ 0 }
  tokenDigits : Fin 32 → Fin LOWER_HEX.length
  roomLetters : Fin ROOM_ID_LEN → Fin ROOM_ID_ALPHABET.length
  conflicts : List ℕ

/-- Each store call, each clock reading and each draw of a request. -/
inductive Call where
  | nowMs
  | monoNs
  | bootId
  | newPeerId
  | newPeerToken
  | newRoomId
  | getNonce (clientNonce : Hex32)
  | getRoom (roomId : RoomId)
  | queryRoom (roomId : RoomId)
  | createRoom (roomId : RoomId) (hostPeerId : PeerId) (peerToken clientNonce : Hex32) (nowMs : ℤ)
      (name : Name)
  | joinRoom (roomId : RoomId) (virtualIp : Text) (peerId : PeerId) (peerToken clientNonce : Hex32)
      (nowMs expiresAtMs : ℤ) (name : Name)
  | registerCandidates (roomId : RoomId) (peerId : PeerId) (peerToken : Hex32)
      (candidates : List Candidate)
  | releasePeer (roomId : RoomId) (peerId : PeerId) (virtualIp : Text) (hostPeerId : PeerId)
      (clientNonce : Option Hex32) (nameKeys : List Text)
  | reclaimPeer (roomId : RoomId) (peerId : PeerId) (virtualIp : Text)
      (clientNonce : Hex32) (nowMs : ℤ)
      (nameKeys : List Text)
  | confirmPair (roomId : RoomId) (hostPeerId otherPeerId : PeerId)
      (readyAtWallMs readyAtMonoNs : ℤ)
      (readyBootId : Text) (expiresAtMs : ℤ)
  | renewRoom (roomId : RoomId) (nowMs newExpiresAtMs : ℤ)
  | renewItem (roomId : RoomId) (sk : SortKey) (ttl : ℤ)

@[reducible] def Reply : Call → Type
  | .nowMs => ℤ
  | .monoNs => ℤ
  | .bootId => Text
  | .newPeerId => PeerId
  | .newPeerToken => Hex32
  | .newRoomId => RoomId
  | .getNonce _ => Option NonceItem
  | .getRoom _ => Option RoomItem
  | .queryRoom _ => RoomView
  | .createRoom .. => Except OpError CreateResult
  | .joinRoom .. => Except OpError JoinResult
  | .registerCandidates .. => Bool
  | .releasePeer .. => Except OpError Bool
  | .reclaimPeer .. => Except OpError Bool
  | .confirmPair .. => Except OpError ConfirmResult
  | .renewRoom .. => Bool
  | .renewItem .. => Bool

/-- The table and two records that no code reads: the latest wall clock reading, and every `PEER#`
item as it was first put. -/
structure Shared where
  table : Table
  clock : ℤ
  issued : List (RoomId × PeerItem)

/-- The peer that a call put, if it put one. -/
def issuedBy : (c : Call) → Reply c → Option (RoomId × PeerItem)
  | .createRoom roomId host token nonce now name, .ok .created =>
    some (roomId,
      ⟨host, token, HOST_VIRTUAL_IP, name, nonce, now, ttlFor (createdExpiresAt now), none⟩)
  | .joinRoom roomId vip peer token nonce now expires name, .ok .joined =>
    some (roomId, ⟨peer, token, vip, name, nonce, now, ttlFor expires, none⟩)
  | _, _ => none

def execTable (r : Reading) : (c : Call) → Table → Reply c × Table
  | .nowMs, t => (r.wallMs, t)
  | .monoNs, t => (r.monoNs, t)
  | .bootId, t => (r.bootId, t)
  | .newPeerId, t => (r.peerId.1, t)
  | .newPeerToken, t => (Control.newPeerToken r.tokenDigits, t)
  | .newRoomId, t => (Control.newRoomId r.roomLetters, t)
  | .getNonce nonce, t => (t.nonces.lookup nonce, t)
  | .getRoom roomId, t => (t.rooms.lookup roomId, t)
  | .queryRoom roomId, t => (Control.queryRoom t roomId, t)
  | .createRoom roomId host token nonce now name, t =>
    t.createRoom r.conflicts roomId host token nonce now name
  | .joinRoom roomId vip peer token nonce now expires name, t =>
    t.joinRoom r.conflicts roomId vip peer token nonce now expires name
  | .registerCandidates roomId peer token candidates, t =>
    t.registerCandidates roomId peer token candidates
  | .releasePeer roomId peer vip host nonce keys, t =>
    t.releasePeer r.conflicts roomId peer vip host nonce keys
  | .reclaimPeer roomId peer vip nonce now keys, t =>
    t.reclaimPeer r.conflicts roomId peer vip nonce now keys
  | .confirmPair roomId host other wall mono boot expires, t =>
    t.confirmPair r.conflicts roomId host other wall mono boot expires
  | .renewRoom roomId now expires, t => t.renewRoom roomId now expires
  | .renewItem roomId sk ttl, t => t.renewItem roomId sk ttl

def exec (r : Reading) (c : Call) (s : Shared) : Reply c × Shared :=
  let (reply, t) := execTable r c s.table
  (reply,
    { table := t
      clock := match c with
        | .nowMs => r.wallMs
        | _ => s.clock
      issued := s.issued ++ (issuedBy c reply).toList })

abbrev store : Machine where
  State := Shared
  Call := Call
  Reply := Reply
  Reading := Reading
  exec := exec

/-- A drawn peer id is never put where a peer of that room had it before. -/
def NeverReused (s : Shared) (c : Call) (_ : Reading) : Prop :=
  match c with
  | .joinRoom roomId _ peerId .. =>
    (s.table.peers.lookup (roomId, peerId)).isSome ∨
      ∀ p ∈ s.issued, ¬(p.1 = roomId ∧ p.2.peerId = peerId)
  | _ => True

end Sangtachi.Control
