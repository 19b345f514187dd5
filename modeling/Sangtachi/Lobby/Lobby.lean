import Sangtachi.Lobby.Requests
import Sangtachi.Tunnel.Tunnel

/-! # The lobby

The state machine of the lobby and of an attempt. An event comes in, a list of actions goes out;
the runner carries the actions out. What the random source, the clock and the collection of the
candidates give is an argument of the event. -/
namespace Sangtachi.Lobby

open Sangtachi.BigEndian Sangtachi.Packet Sangtachi.Peer Sangtachi.Tunnel

/-! ## Lines of the standard output -/

inductive FailCode where
  | stunDiscoveryFailed | controlPlaneExchangeFailed | holePunchTimeout | peerHandshakeFailed
    | tunnelDropped
  deriving DecidableEq, Repr

def FailCode.token : FailCode → String
  | .stunDiscoveryFailed => "STUN_DISCOVERY_FAILED"
  | .controlPlaneExchangeFailed => "CONTROL_PLANE_EXCHANGE_FAILED"
  | .holePunchTimeout => "HOLE_PUNCH_TIMEOUT"
  | .peerHandshakeFailed => "PEER_HANDSHAKE_FAILED"
  | .tunnelDropped => "TUNNEL_DROPPED"

def failSentence : FailCode → String
  | .stunDiscoveryFailed =>
    "Could not find this computer's internet address. Check the network connection and try again."
  | .controlPlaneExchangeFailed =>
    "Could not exchange room information. Check that the room code is right and the room is " ++
      "still open, then try again. If someone in the room already has your name, use another name."
  | .holePunchTimeout =>
    "Could not make a direct connection to the other player. Try again with one of you on a " ++
      "different network."
  | .peerHandshakeFailed =>
    "The connection opened in one direction only. Check the firewall settings and try again."
  | .tunnelDropped =>
    "The connection to the other player was lost. They may have left, or the network is unstable."

def toFailCode : SessionFailure → FailCode
  | .holePunchTimeout => .holePunchTimeout
  | .peerHandshakeFailed => .peerHandshakeFailed
  | .tunnelDropped => .tunnelDropped

def noPeer : Bytes := ascii "-"

def failLine (code : FailCode) (peer : Bytes) : Bytes :=
  ascii "FAIL " ++ ascii code.token ++ ascii " " ++
    (if peer = [] then noPeer else peer) ++ ascii " " ++
    ascii (failSentence code)

def roomLine (roomId : Bytes) : Bytes := ascii "ROOM " ++ roomId

/-! ## Commands -/

inductive CommandKind where
  | host | join | leave | name | help
  deriving DecidableEq, Repr

def CommandKind.token : CommandKind → String
  | .host => "host"
  | .join => "join"
  | .leave => "leave"
  | .name => "name"
  | .help => "help"

/-- `extra`: there were more words than the command takes. -/
structure LobbyCommand where
  kind : CommandKind
  argument : Bytes := []
  extra : Bool := false
  deriving DecidableEq, Repr

/-! ## Actions -/

inductive LobbyStage where
  | lobby | issuing | stun | registering | polling | settled
  deriving DecidableEq, Repr

inductive LobbyRole where
  | none | host | player
  deriving DecidableEq, Repr

def LobbyRole.token : LobbyRole → String
  | .host => "host"
  | .player => "player"
  | .none => "none"

/-- The names of the timers. The punch timer of a pair carries the decimal id of the peer; the
names of all other timers of the process are `other`. -/
inductive TimerName where
  | retry | poll | deadline | hostReport
  | punch (peerId : U32)
  | stunRetry (server : ℕ)
  | stunDeadline (server : ℕ)
  | other (name : String)
  deriving DecidableEq, Repr

def TimerName.text : TimerName → String
  | .retry => "control.retry"
  | .poll => "control.poll"
  | .deadline => "control.deadline"
  | .hostReport => "control.host_report"
  | .punch peerId => "control.punch." ++ toString peerId.toNat
  | .stunRetry server => "stun.retry." ++ toString server
  | .stunDeadline server => "stun.deadline." ++ toString server
  | .other name => name

def ownsTimer : TimerName → Bool
  | .retry | .poll | .deadline | .hostReport | .punch _ => true
  | _ => false

structure SubmitRequest where
  op : Op
  body : Body
  selfPeerId : U32
  deriving DecidableEq

inductive LogLevel where
  | info | warn | error
  deriving DecidableEq, Repr

inductive LobbyAction where
  | submitRequest (request : SubmitRequest)
  | startStun
  | cancelStun
  | armTimer (name : TimerName) (delayMs : Millis)
  | cancelTimer (name : TimerName)
  | printLine (text : Bytes)
  | guideLine (text : Bytes)
  | logLine (level : LogLevel) (event : String) (fields : List LogField)
  | openSession (request : NewSession) (peerName : Bytes) (role : LobbyRole) (setupBaseMs : Millis)
  | startPunch (peerId : U32)
  | leaveRoom
  | assignAddress (virtualIp : U32)
  | startRoster (self : RosterPeer)
  | setRosterPeers (peers : List RosterPeer)
  | recordAttempt (role : LobbyRole) (peer : Option U32) (result : String)
  deriving DecidableEq

/-- The actions of one event. The request is kept apart and put at the end. -/
structure Batch where
  actions : List LobbyAction := []
  request : Option SubmitRequest := none
  deriving DecidableEq

def Batch.finish (b : Batch) : List LobbyAction := b.actions ++ b.request.toList.map .submitRequest

/-! ## Events -/

inductive ReplyBody where
  | issued (reply : Reply Issued)
  | registered (reply : Reply Registered)
  | peers (reply : Reply Peers)
  | hostReport (reply : Reply HostReport)
  deriving DecidableEq

def ReplyBody.index : ReplyBody → ℕ
  | .issued _ => 0
  | .registered _ => 1
  | .peers _ => 2
  | .hostReport _ => 3

def replyIndex : Op → ℕ
  | .createRoom | .joinRoom => 0
  | .registerCandidate => 1
  | .getPeers => 2
  | .hostReport => 3

structure ControlReply where
  op : Op
  reply : ReplyBody
  deriving DecidableEq

structure StunMapping where
  server : String
  mapped : Endpoint
  deriving DecidableEq, Repr

structure SessionEvent where
  peerId : U32
  before : SessionState := .punching
  after : SessionState := .punching
  failure : Option SessionFailure := none
  peerCloseReason : Option CloseReason := none
  lastRttUs : Option U64 := none
  deriving DecidableEq, Repr

/-- What the random source, the clock and the collection of candidates give during one event. -/
structure LobbyIo where
  nonce : Option ClientNonce
  now : Millis
  collect : List Endpoint → List Candidate

end Sangtachi.Lobby

namespace Sangtachi

open BigEndian Packet Peer Tunnel Lobby

namespace Lobby

/-- The request that is under way. It is orphaned when its attempt has ended; `departed` is what
a host report carries. -/
structure Pending where
  op : Op
  orphaned : Bool := false
  departed : List U32 := []
  deriving DecidableEq

/-- A peer with whom a session was opened; it is active until the session ends. -/
structure Pair where
  peerId : U32
  name : Bytes
  active : Bool := true
  deriving DecidableEq, Repr

end Lobby

/-- `undefined` is set where the source would read the peer token while there is none. -/
structure Lobby where
  name : Bytes
  stage : LobbyStage := .lobby
  role : LobbyRole := .none
  pending : Option Lobby.Pending := none
  roomId : Bytes := []
  peerId : U32 := 0
  localVip : U32 := 0
  token : Option PeerToken := none
  requestOp : Lobby.Op := .createRoom
  requestBody : Lobby.Body := .empty
  tries : ℕ := 0
  requestDue : Bool := false
  reporting : Bool := false
  reportDue : Bool := false
  roomEnded : Bool := false
  lastPeerCount : ℕ := 0
  confirm : List U32 := []
  announced : List U32 := []
  departed : List U32 := []
  firstSeen : List (U32 × Millis) := []
  stunStarted : Millis := 0
  hostPeer : Option U32 := none
  pairs : List Lobby.Pair := []
  armed : List TimerName := []
  undefined : Bool := false
  /-- the actions of the event under way -/
  out : Batch := {}
  deriving DecidableEq

end Sangtachi

namespace Sangtachi.Lobby

open Sangtachi.BigEndian Sangtachi.Packet Sangtachi.Peer Sangtachi.Tunnel

def push (L : Lobby) (a : LobbyAction) : Lobby :=
  { L with out := { L.out with actions := L.out.actions ++ [a] } }

def pushAll (L : Lobby) (as : List LobbyAction) : Lobby :=
  { L with out := { L.out with actions := L.out.actions ++ as } }

def log (L : Lobby) (level : LogLevel) (event : String) (fields : List LogField := []) : Lobby :=
  L.push (.logLine level event fields)

def inLobby (L : Lobby) : Bool := L.stage = .lobby

def activePairs (L : Lobby) : ℕ := L.pairs.countP (·.active)

def findPair (L : Lobby) (peerId : U32) : Option Pair := L.pairs.find? (·.peerId = peerId)

/-! ## Guides -/

def rejectedGuide (reason : String) : String :=
  if reason = "in_lobby" then "  You are not in a room."
  else if reason = "not_in_lobby" then "  Not available while in a room. Type leave first."
  else if reason = "request_pending" then
    "  Still working on the previous request. Try again in a moment."
  else if reason = "extra_argument" then "  Too many words. Type help to see how to use it."
  else if reason = "missing_room" then "  Type the room code after join."
  else if reason = "bad_room" then "  A room code is 6 characters. Check the code and try again."
  else if reason = "missing_name" then "  Type the new name after name."
  else if reason = "bad_name" then "  A name is 1-16 letters, digits or _."
  else "  That command is not available now. Type help to see the commands."

def reject (L : Lobby) (reason : String) (kind : CommandKind) : Lobby :=
  (L.log .warn "console.rejected" [⟨"reason", ascii reason⟩, ⟨"command", ascii kind.token⟩]).push
    (.guideLine (ascii (rejectedGuide reason)))

def rule : Bytes := ascii "  =================================================="

def lobbyGuide (L : Lobby) : List Bytes :=
  [rule, ascii "   Sangtachi lobby  |  Name: " ++ L.name, rule,
    ascii "    host           Create a room",
    ascii "    join <code>    Join a room",
    ascii "    name <name>    Change your name (1-16 letters, digits or _)",
    ascii "    help           Show this help", ascii "    quit           Exit"]

def roomTitle (L : Lobby) : Bytes :=
  ascii "   Room " ++ (if L.roomId = [] then ascii "(joining)" else L.roomId) ++
    ascii "  |  Name: " ++ L.name ++
    (if L.localVip ≠ 0 then ascii "  |  Virtual IP: " ++ formatIpv4 L.localVip else [])

def roomGuide (L : Lobby) : List Bytes :=
  [rule, L.roomTitle, rule, ascii "    leave          Leave the room and go back to the lobby",
    ascii "    help           Show this help", ascii "    quit           Exit"]

def showLobbyGuide (L : Lobby) : Lobby := L.pushAll (L.lobbyGuide.map .guideLine)

def showRoomGuide (L : Lobby) : Lobby := L.pushAll (L.roomGuide.map .guideLine)

/-! ## Timers -/

def forgetArmed (L : Lobby) (name : TimerName) : Lobby :=
  { L with armed := L.armed.filter (· ≠ name) }

def arm (L : Lobby) (name : TimerName) (delayMs : Millis) : Lobby :=
  let L :=
    if name ∈ L.armed then L.push (.cancelTimer name) else { L with armed := L.armed ++ [name] }
  L.push (.armTimer name delayMs)

def disarm (L : Lobby) (name : TimerName) : Lobby :=
  if name ∈ L.armed then (L.forgetArmed name).push (.cancelTimer name) else L

/-! ## The end of an attempt -/

def recordUnfinished (L : Lobby) (result : String) : Lobby :=
  if L.role = .player ∧ L.pairs = [] then L.push (.recordAttempt L.role L.hostPeer result)
  else if L.role = .host ∧ L.stage ≠ .settled then L.push (.recordAttempt L.role none result)
  else L

/-- The timers go, the last one armed first. -/
def disarmAll (L : Lobby) : Lobby := L.armed.reverse.foldl disarm L

/-- What the end of an attempt leaves: the name, the request under way and what was sent of it. -/
def cleared (L : Lobby) : Lobby :=
  { name := L.name
    pending := L.pending.map fun p => { p with orphaned := true }
    requestOp := L.requestOp
    armed := L.armed
    undefined := L.undefined
    out := L.out }

def endAttempt (L : Lobby) (reason : String) (leaveRoom : Bool := true) : Lobby :=
  let stage := L.stage
  let L := L.disarmAll
  let L := if stage = .stun then L.push .cancelStun else L
  let L := L.cleared
  let L := if leaveRoom then L.push .leaveRoom else L
  let L := L.log .info "attempt.end" [⟨"reason", ascii reason⟩]
  if reason ≠ "shutdown" then L.showLobbyGuide else L

def sessionFailed (L : Lobby) (code : FailCode) : Lobby :=
  L.log .error "session.failed" [⟨"code", ascii code.token⟩]

def endRoom (L : Lobby) : Lobby :=
  if L.roomEnded then L
  else
    let L := { L with roomEnded := true }
    let L := L.push (.printLine (failLine .controlPlaneExchangeFailed noPeer))
    let L := L.sessionFailed .controlPlaneExchangeFailed
    let L := { L with reporting := false, reportDue := false }
    let L := L.disarm .hostReport
    if L.activePairs = 0 then L.endAttempt "room_ended" else L

def fail (L : Lobby) (code : FailCode) : Lobby :=
  if L.role = .host ∧ L.stage = .settled then L.endRoom
  else
    let L := L.push (.printLine (failLine code noPeer))
    let L := if code ≠ .stunDiscoveryFailed then L.sessionFailed code else L
    (L.recordUnfinished code.token).endAttempt "failed"

/-! ## Requests -/

def submit (L : Lobby) (op : Op) (body : Body) (departed : List U32 := []) : Lobby :=
  { L with
    pending := some { op := op, departed := departed }
    out := { L.out with request := some ⟨op, body, L.peerId⟩ } }

def sendOrDeferRequest (L : Lobby) : Lobby :=
  if L.pending.isSome then { L with requestDue := true }
  else { L with requestDue := false, tries := L.tries + 1 }.submit L.requestOp L.requestBody

def withToken (L : Lobby) (build : PeerToken → Option Body) : Option Body × Lobby :=
  match L.token with
  | some token => (build token, L)
  | none => (none, { L with undefined := true })

def sendHostReport (L : Lobby) : Lobby :=
  if L.pending.isSome then { L with reportDue := true }
  else
    let L := { L with reportDue := false }
    match L.withToken
      (fun token => hostReportBody L.roomId L.peerId token L.departed L.confirm) with
    | (none, L) => L.fail .controlPlaneExchangeFailed
    | (some body, L) =>
      let L := L.disarm .hostReport
      let L := L.arm .hostReport
        (if maxOthers ≤ L.lastPeerCount then hostReportFullMs else hostReportOpenMs)
      L.submit .hostReport body L.departed

def runDue (L : Lobby) : Lobby :=
  if L.pending.isSome ∨ L.inLobby then L
  else if L.requestDue then L.sendOrDeferRequest
  else if L.reportDue ∧ L.reporting then L.sendHostReport
  else L

def retryOrFail (L : Lobby) : Lobby :=
  if L.tries < maxTries then L.arm .retry retryIntervalMs else L.fail .controlPlaneExchangeFailed

/-! ## Commands -/

def startAttempt (L : Lobby) (io : LobbyIo) (role : LobbyRole) (room : Bytes) : Lobby :=
  let L := { L with role := role, stage := .issuing }
  let L := L.log .info "attempt.start" [⟨"role", ascii role.token⟩]
  match io.nonce with
  | none => L.fail .controlPlaneExchangeFailed
  | some nonce =>
    let (op, body) :=
      if role = .host then (Op.createRoom, createRoomBody nonce L.name)
      else (Op.joinRoom, joinRoomBody room nonce L.name)
    let L := { L with requestOp := op }
    match body with
    | none => L.fail .controlPlaneExchangeFailed
    | some body => { L with requestBody := body, tries := 0 }.sendOrDeferRequest

def onName (L : Lobby) (command : LobbyCommand) : Lobby :=
  if !L.inLobby then L.reject "not_in_lobby" .name
  else if command.extra then L.reject "extra_argument" .name
  else if command.argument = [] then L.reject "missing_name" .name
  else if !isValidName command.argument then L.reject "bad_name" .name
  else
    let L := { L with name := command.argument }
    (L.log .info "lobby.name" [⟨"name", L.name⟩]).push
      (.guideLine (ascii "  Name changed: " ++ L.name))

def onLeave (L : Lobby) (command : LobbyCommand) : Lobby :=
  if L.inLobby then L.reject "in_lobby" .leave
  else if command.extra then L.reject "extra_argument" .leave
  else (L.recordUnfinished "ABORTED").endAttempt "leave"

def onHelp (L : Lobby) (command : LobbyCommand) : Lobby :=
  if command.extra then L.reject "extra_argument" .help
  else if L.inLobby then L.showLobbyGuide
  else L.showRoomGuide

/-- `host` and `join` are taken in the lobby, and only while no request is under way. -/
def onStartCommand (L : Lobby) (io : LobbyIo) (command : LobbyCommand) : Lobby :=
  if !L.inLobby then L.reject "not_in_lobby" command.kind
  else if L.pending.isSome then L.reject "request_pending" command.kind
  else if command.extra then L.reject "extra_argument" command.kind
  else if command.kind = .host then L.startAttempt io .host []
  else if command.argument = [] then L.reject "missing_room" command.kind
  else if !isRoomIdInput command.argument then L.reject "bad_room" command.kind
  else L.startAttempt io .player command.argument

def onCommand (L : Lobby) (io : LobbyIo) (command : LobbyCommand) : Lobby :=
  match command.kind with
  | .help => L.onHelp command
  | .leave => L.onLeave command
  | .name => L.onName command
  | .host | .join => L.onStartCommand io command

/-! ## Pairs -/

def setPair (L : Lobby) (pair : Pair) : Lobby :=
  { L with pairs := L.pairs.filter (·.peerId ≠ pair.peerId) ++ [pair] }

def openPair (L : Lobby) (peer : PeerView) (setupBaseMs : Millis) : Lobby :=
  let L := L.setPair { peerId := peer.peerId, name := peer.name }
  let L := L.push (.openSession
    { localPeerId := L.peerId
      localVirtualIp := L.localVip
      peerId := peer.peerId
      peerVirtualIp := peer.virtualIp
      candidates := peer.candidates.map (·.endpoint)
      peerIsHost := L.role = .player } peer.name L.role setupBaseMs)
  let delay : ℤ := peer.punchDelayMs.toNat - peer.elapsedSinceReadyMs
  if delay ≤ 0 then L.push (.startPunch peer.peerId) else L.arm (.punch peer.peerId) delay.toNat

def deactivate (L : Lobby) (peerId : U32) : Lobby :=
  { L with
    pairs := L.pairs.map fun p => if p.peerId = peerId then { p with active := false } else p }

def noteDeparted (L : Lobby) (peerId : U32) : Lobby :=
  if peerId ∉ L.departed ∧ L.departed.length < maxOthers then
    { L with departed := L.departed ++ [peerId] } else L

/-- The host stays in its room and reports at once; the last pair of a room that has ended takes it
back to the lobby. -/
def reportClosed (L : Lobby) : Lobby :=
  let L := if L.reporting then L.sendHostReport else L
  if L.roomEnded ∧ L.activePairs = 0 then L.endAttempt "room_ended" else L

def closePair (L : Lobby) (peerId : U32) (failure : Option FailCode) : Lobby :=
  match L.findPair peerId with
  | none => L
  | some pair =>
    if !pair.active then L
    else
      let L := L.deactivate peerId
      let L := L.disarm (.punch peerId)
      let L := failure.elim L fun code => L.push (.printLine (failLine code pair.name))
      if L.role = .player then L.endAttempt (if failure.isSome then "failed" else "closed")
      else (L.noteDeparted peerId).reportClosed

/-! ## Replies -/

/-- The room is there, or joined; the server at which the own endpoint is asked comes next. -/
def takeIssued (L : Lobby) (io : LobbyIo) (issued : Issued) : Lobby :=
  let L :=
    { L with
      roomId := issued.roomId
      peerId := issued.peerId
      localVip := issued.virtualIp
      token := some issued.peerToken
      requestBody := .empty
      tries := 0 }
  let L := L.push (.printLine (roomLine L.roomId))
  let L := L.push (.guideLine (ascii (
    if L.role = LobbyRole.host then
      "  Room created. Share the room code above with the other players."
    else "  Joined the room. Connecting to the host...")))
  let L := L.push (.guideLine (ascii "  Your virtual IP: " ++ formatIpv4 L.localVip ++
    ascii ". Type leave to leave the room, quit to exit."))
  let L := L.push (.assignAddress L.localVip)
  let L :=
    if L.role = .host then { L with reporting := true }.arm .hostReport hostReportOpenMs else L
  { L with stage := .stun, stunStarted := io.now }.push .startStun

def onIssued (L : Lobby) (io : LobbyIo) (reply : Reply Issued) : Lobby :=
  if reply.outcome = .transient then L.retryOrFail
  else
    match reply.outcome, reply.value with
    | .success, some issued => L.takeIssued io issued
    | _, _ => L.fail .controlPlaneExchangeFailed

def onStunDone (L : Lobby) (io : LobbyIo) (ok : Bool) (mappings : List StunMapping) : Lobby :=
  if L.stage ≠ .stun then L
  else
    let L := { L with stage := .registering }
    if !ok ∨ mappings = [] then L.fail .stunDiscoveryFailed
    else
      let candidates := io.collect (mappings.map (·.mapped))
      match L.withToken (fun token => registerCandidateBody L.roomId L.peerId token candidates) with
      | (none, L) => L.fail .controlPlaneExchangeFailed
      | (some body, L) =>
        { L with
          requestOp := .registerCandidate
          requestBody := body
          tries := 0 }.sendOrDeferRequest

/-- The host has set up its room; a player polls for the host. -/
def takeRegistered (L : Lobby) (registered : Registered) : Lobby :=
  let L :=
    if registered.rejected ≠ 0 then
      L.log .warn "control.candidates_rejected" [⟨"rejected", decimal registered.rejected.toNat⟩]
    else L
  let L := { L with requestBody := .empty, tries := 0 }
  if L.role = .host then
    { L with stage := .settled }.push (.startRoster ⟨L.peerId, L.localVip, L.name⟩)
  else ({ L with stage := .polling }.arm .poll getPeersPollMs).arm .deadline getPeersDeadlineMs

def onRegistered (L : Lobby) (reply : Reply Registered) : Lobby :=
  if reply.outcome = .transient then L.retryOrFail
  else
    match reply.outcome, reply.value with
    | .success, some registered => L.takeRegistered registered
    | _, _ => L.fail .controlPlaneExchangeFailed

/-- A player sees one peer, the host; anything else is a reply of the wrong form. -/
def asPlayerReply (reply : Reply Peers) : Reply Peers :=
  if reply.outcome = .success ∧ reply.value.any (·.peers.length ≠ 1) then
    transportFailure Peers else reply

/-- What a player does with the host of its room: it opens the session once the host is ready. -/
def takeHostPeer (L : Lobby) (peer : PeerView) : Lobby :=
  let L := { L with hostPeer := some peer.peerId }
  if isPunchReady peer then
    let L := L.log .info "control.peers" (controlPeersFields peer)
    let L := (L.disarm .deadline).disarm .poll
    { L with stage := .settled }.openPair peer L.stunStarted
  else L.arm .poll getPeersPollMs

def onPeers (L : Lobby) (reply : Reply Peers) : Lobby :=
  if reply.outcome = .transient then L.arm .poll getPeersPollMs
  else
    match reply.outcome, reply.value with
    | .success, some ⟨_, peer :: _⟩ => L.takeHostPeer peer
    | _, _ => L.fail .controlPlaneExchangeFailed

def firstSeenAt (L : Lobby) (peerId : U32) : Millis :=
  ((L.firstSeen.find? (·.1 = peerId)).map (·.2)).getD 0

/-- The first response that shows a ready peer gets one line; a peer that was announced before
stays announced while it is listed. -/
def noteListed (io : LobbyIo) (announced : List U32) (s : Lobby × List U32) (peer : PeerView) :
    Lobby × List U32 :=
  let (L, stillHere) := s
  let L :=
    if L.firstSeen.any (·.1 = peer.peerId) then L
    else { L with firstSeen := L.firstSeen ++ [(peer.peerId, io.now)] }
  let L := if !peer.ready then { L with confirm := L.confirm ++ [peer.peerId] } else L
  if peer.peerId ∈ announced then (L, stillHere ++ [peer.peerId])
  else if isPunchReady peer then
    (L.log .info "control.peers" (controlPeersFields peer), stillHere ++ [peer.peerId])
  else (L, stillHere)

/-- Peers that are neither listed nor still to be reported are forgotten. -/
def forgetGone (L : Lobby) (listed : List U32) : Lobby :=
  let pairs := L.pairs.filter fun p => p.active || p.peerId ∈ listed || p.peerId ∈ L.departed
  { L with
    pairs := pairs
    firstSeen := L.firstSeen.filter fun x => x.1 ∈ listed || pairs.any (·.peerId = x.1) }

def openListed (L : Lobby) (peer : PeerView) : Lobby :=
  if isPunchReady peer ∧ L.findPair peer.peerId = none then
    L.openPair peer (L.firstSeenAt peer.peerId) else L

/-- What a successful report says about the peers of the room. -/
def takeReport (L : Lobby) (io : LobbyIo) (peers : List PeerView) (carried : List U32) : Lobby :=
  let L :=
    { L with
      departed := L.departed.filter (· ∉ carried)
      lastPeerCount := peers.length
      confirm := [] }
  let (L, stillHere) := peers.foldl (noteListed io L.announced) (L, [])
  let L := { L with announced := stillHere }.forgetGone (peers.map PeerView.peerId)
  if L.stage ≠ .settled then L
  else
    let L := L.push (.setRosterPeers (peers.map fun p => ⟨p.peerId, p.virtualIp, p.name⟩))
    peers.foldl openListed L

def onHostReport (L : Lobby) (io : LobbyIo) (reply : Reply HostReport)
    (pending : Pending) : Lobby :=
  if hostReportAction reply.outcome reply.failure = .stop then L.fail .controlPlaneExchangeFailed
  else
    match reply.outcome, reply.value with
    | .success, some report => L.takeReport io report.peers pending.departed
    | _, _ => L

def resultLine (L : Lobby) (op : Op) (outcome : Outcome) (failure : Failure) : Lobby :=
  L.log (if outcome = .success then .info else .warn) "control.result"
    (controlResultFields op outcome failure)

/-- The reply of the operation under way; the index of its type was compared with that of the
operation before. -/
def takeReply (L : Lobby) (io : LobbyIo) (op : Op) (pending : Pending) : ReplyBody → Lobby
  | .issued r => (L.resultLine op r.outcome r.failure).onIssued io r
  | .registered r => (L.resultLine op r.outcome r.failure).onRegistered r
  | .peers r =>
    let r := asPlayerReply r
    (L.resultLine op r.outcome r.failure).onPeers r
  | .hostReport r => (L.resultLine op r.outcome r.failure).onHostReport io r pending

def onReply (L : Lobby) (io : LobbyIo) (reply : ControlReply) : Lobby :=
  match L.pending with
  | none => L.log .warn "control.unexpected_reply" [⟨"op", ascii (opName reply.op)⟩]
  | some pending =>
    let L := { L with pending := none }
    if pending.op ≠ reply.op ∨ reply.reply.index ≠ replyIndex pending.op then
      let L := L.log .warn "control.reply_mismatch" [⟨"op", ascii (opName pending.op)⟩]
      let L := if !pending.orphaned ∧ !L.inLobby then L.fail .controlPlaneExchangeFailed else L
      L.runDue
    else if pending.orphaned then L.log .info "control.discarded" [⟨"op", ascii (opName reply.op)⟩]
    else (L.takeReply io reply.op pending reply.reply).runDue

def onSubmitDropped (L : Lobby) : Lobby :=
  match L.pending with
  | none => L
  | some pending =>
    let L := { L with pending := none }
    if !pending.orphaned ∧ !L.inLobby then L.fail .controlPlaneExchangeFailed else L

/-! ## Sessions, timers and the end of the process -/

def onSessionEvent (L : Lobby) (event : SessionEvent) : Lobby :=
  if event.after = .connected then
    match L.findPair event.peerId with
    | none => L
    | some pair =>
      if pair.active then
        L.push
          (.guideLine (ascii "  Connected: " ++ if pair.name = [] then ascii "peer" else pair.name))
      else L
  else if !isTerminal event.after then L
  else
    L.closePair event.peerId
      (if event.after = .failed then
        some (toFailCode (event.failure.getD .tunnelDropped)) else none)

def clearPairName (L : Lobby) (peerId : U32) : Lobby :=
  { L with pairs := L.pairs.map fun p => if p.peerId = peerId then { p with name := [] } else p }

def onSessionOpenFailed (L : Lobby) (peerId : U32) : Lobby :=
  match L.findPair peerId with
  | none => L
  | some pair =>
    if !pair.active then L
    else
      let code := FailCode.controlPlaneExchangeFailed
      let L := L.log .error "session.failed"
        [⟨"peer_id", decimal peerId.toNat⟩, ⟨"code", ascii code.token⟩]
      let L := L.push (.recordAttempt L.role (some peerId) code.token)
      (L.clearPairName peerId).closePair peerId (some code)

def onShutdown (L : Lobby) : Lobby :=
  if L.inLobby then L else (L.recordUnfinished "ABORTED").endAttempt "shutdown" false

def onPollTimer (L : Lobby) : Lobby :=
  if L.stage = .polling ∧ L.pending = none then
    match L.withToken (fun token => getPeersBody L.roomId L.peerId token) with
    | (none, L) => L.fail .controlPlaneExchangeFailed
    | (some body, L) => L.submit .getPeers body
  else L

def onTimer (L : Lobby) (name : TimerName) : Lobby :=
  if !ownsTimer name ∨ name ∉ L.armed then L
  else
    let L := L.forgetArmed name
    match name with
    | .retry => if L.stage = .issuing ∨ L.stage = .registering then L.sendOrDeferRequest else L
    | .poll => L.onPollTimer
    | .deadline => if L.stage = .polling then L.fail .controlPlaneExchangeFailed else L
    | .hostReport => if L.reporting then L.sendHostReport else L
    | .punch peerId => L.push (.startPunch peerId)
    | _ => L

/-! ## Events and runs -/

inductive LobbyEvent where
  | start
  | command (command : LobbyCommand)
  | reply (reply : ControlReply)
  | submitDropped
  | stunDone (ok : Bool) (mappings : List StunMapping)
  | timer (name : TimerName)
  | session (event : SessionEvent)
  | sessionOpenFailed (peerId : U32)
  | shutdown
  deriving DecidableEq

def LobbyEvent.apply (L : Lobby) (io : LobbyIo) : LobbyEvent → Lobby
  | .start => L.showLobbyGuide
  | .command c => L.onCommand io c
  | .reply r => L.onReply io r
  | .submitDropped => L.onSubmitDropped
  | .stunDone ok mappings => L.onStunDone io ok mappings
  | .timer name => L.onTimer name
  | .session e => L.onSessionEvent e
  | .sessionOpenFailed peerId => L.onSessionOpenFailed peerId
  | .shutdown => L.onShutdown

/-- One event; `out` holds the actions it returns. -/
def step (L : Lobby) (io : LobbyIo) (event : LobbyEvent) : Lobby :=
  event.apply { L with out := {} } io

def actions (L : Lobby) : List LobbyAction := L.out.finish

def create (name : Bytes) : Lobby := { name := name }

/-- One event of a run, with the states around it. -/
structure Entry where
  io : LobbyIo
  event : LobbyEvent
  before : Lobby
  after : Lobby

inductive Run : List Entry → Lobby → Prop where
  | start (name : Bytes) : Run [] (create name)
  | event {h L} (io : LobbyIo) (e : LobbyEvent) : Run h L →
    Run (h ++ [⟨io, e, L, L.step io e⟩]) (L.step io e)

end Sangtachi.Lobby
