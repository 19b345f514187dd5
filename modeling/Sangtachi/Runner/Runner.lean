import Sangtachi.ControlClient.Exchange
import Sangtachi.ControlClient.Requests
import Sangtachi.ControlClient.Responses
import Sangtachi.Lobby.Queries
import Sangtachi.Lobby.Submissions
import Sangtachi.Network.StunRuns

/-! # The runner of the lobby

Carries out the actions of the lobby on the loop: the timers, the STUN client, the channel to the
control server and the tunnel. Actions and transitions wait in two queues, and one round of the loop
takes one of them. What the channel and the tunnel answer is an argument; log lines are left out,
save for the timers that were rejected. -/
namespace Sangtachi.Runner

open Sangtachi.BigEndian Sangtachi.Stun Sangtachi.Timers
open Sangtachi.Packet (CloseReason)
open Sangtachi.Peer (SessionState SessionFailure isTerminal)
open Sangtachi.Lobby
  (Bytes ascii decimal Op SubmitRequest LobbyAction LobbyEvent LobbyIo LobbyRole LobbyCommand
  SessionEvent ControlReply ReplyBody TimerName OwnSubnet Issued Registered Peers HostReport
    transportFailure)
open Sangtachi.StunClient (StunServer Client retryTimer deadlineTimer)
open Sangtachi.Exchange (ExchangeResult)
open Sangtachi.Requests (bodyText buildRequest)
open Sangtachi.Responses
  (interpretCreateRoom interpretJoinRoom interpretRegisterCandidate interpretGetPeers
  interpretHostReport)

/-! ## The channel -/

structure ControlRequest where
  op : Op
  bytes : Bytes
  selfPeerId : U32
  deriving DecidableEq, Repr

structure ControlResponse where
  op : Op
  result : ExchangeResult
  selfPeerId : U32
  deriving DecidableEq, Repr

/-- A response that was not received is a transport error of its operation. -/
def interpret (response : ControlResponse) (own : List OwnSubnet) : ControlReply :=
  let got := response.result.status = .complete
  let raw := response.result.response
  match response.op with
  | .createRoom =>
    ⟨.createRoom, .issued (if got then interpretCreateRoom raw else transportFailure Issued)⟩
  | .joinRoom =>
    ⟨.joinRoom, .issued (if got then interpretJoinRoom raw else transportFailure Issued)⟩
  | .registerCandidate =>
    ⟨.registerCandidate,
      .registered (if got then interpretRegisterCandidate raw else transportFailure Registered)⟩
  | .getPeers =>
    ⟨.getPeers, .peers
      (if got then interpretGetPeers raw response.selfPeerId own else transportFailure Peers)⟩
  | .hostReport =>
    ⟨.hostReport,
      .hostReport (if got then interpretHostReport raw response.selfPeerId own else
        transportFailure HostReport)⟩

/-! ## Names of timers -/

def nameOf (n : TimerName) : Bytes := ascii n.text

def punchName : Bytes := ascii "control.punch."

/-- The peer of `control.punch.` and a decimal of 32 bits. -/
def punchTimerPeer (name : Bytes) : Option U32 :=
  let digits := name.drop punchName.length
  if name.take punchName.length ≠ punchName then none
  else if digits = [] then none
  else if !digits.all Network.isAsciiDigit then none
  else
    let value := digits.foldl (fun n c => n * 10 + (c.toNat - 0x30)) 0
    if value < 2 ^ 32 then some (BitVec.ofNat 32 value) else none

def ownsTimer (name : Bytes) : Bool :=
  name = nameOf .retry || name = nameOf .poll || name = nameOf .deadline ||
    name = nameOf .hostReport ||
    (punchTimerPeer name).isSome

/-- The timer of the lobby with exactly this name: a decimal can be spelled in more than one way. -/
def timerOf (name : Bytes) : Option TimerName :=
  if name = nameOf .retry then some .retry
  else if name = nameOf .poll then some .poll
  else if name = nameOf .deadline then some .deadline
  else if name = nameOf .hostReport then some .hostReport
  else
    match punchTimerPeer name with
    | some peerId => if nameOf (.punch peerId) = name then some (.punch peerId) else none
    | none => none

/-! ## Record lines -/

inductive LineKind where
  | establish | ends
  deriving DecidableEq, Repr

structure RecordLine where
  kind : LineKind
  attempt : ℕ
  role : LobbyRole
  peer : Option U32
  result : String
  rttUs : Option U64
  setupMs : Option ℕ
  deriving DecidableEq, Repr

/-- A pair whose lines are still to be written. -/
structure Track where
  role : LobbyRole
  setupBaseMs : ℕ
  connected : Bool
  attempt : ℕ
  deriving DecidableEq, Repr

structure QueuedEvent where
  event : SessionEvent
  at_ : ℕ
  deriving DecidableEq, Repr

def failureToken : SessionFailure → String
  | .holePunchTimeout => "HOLE_PUNCH_TIMEOUT"
  | .peerHandshakeFailed => "PEER_HANDSHAKE_FAILED"
  | .tunnelDropped => "TUNNEL_DROPPED"

def recordResult (event : SessionEvent) (connected : Bool) : String :=
  if event.after = .failed then failureToken (event.failure.getD .tunnelDropped)
  else if event.peerCloseReason = some .configError ∨
    event.peerCloseReason = some .setupFailed then "PEER_FAILED"
  else if connected then "CLOSED"
  else "ABORTED"

end Sangtachi.Runner

namespace Sangtachi

open BigEndian Timers
open Lobby (Bytes LobbyAction)
open StunClient (Client)

/-- `inFlight` holds the requests that the channel took and did not answer, `rejected` the names in
the lines about a timer that was armed twice, `queries` the number of clients made so far. What was
carried out, and the sessions that the tunnel made, are kept for the account of the record lines;
`told` keeps every event that the lobby was handed, with the number of clients made by then. -/
structure ControlRunner where
  lobby : Lobby
  stun : Option Client := none
  stunReported : Bool := false
  queue : List LobbyAction := []
  events : List Runner.QueuedEvent := []
  running : Bool := false
  tracks : List (U32 × Runner.Track) := []
  timers : TimerSet Bytes
  dropStunParse : ℕ := 0
  queries : ℕ := 0
  inFlight : List Runner.ControlRequest := []
  rejected : List Bytes := []
  lastAttempt : ℕ := 0
  records : List Runner.RecordLine := []
  carried : List LobbyAction := []
  opened : List (Lobby.LobbyRole × BigEndian.U32) := []
  told : List (ℕ × Lobby.LobbyEvent) := []

end Sangtachi

namespace Sangtachi.Runner

open Sangtachi.BigEndian Sangtachi.Stun Sangtachi.Timers
open Sangtachi.Peer (SessionState SessionFailure isTerminal)
open Sangtachi.Lobby
  (Bytes ascii decimal Op SubmitRequest LobbyAction LobbyEvent LobbyIo LobbyRole LobbyCommand
  SessionEvent ControlReply TimerName OwnSubnet)
open Sangtachi.StunClient (StunServer Client retryTimer deadlineTimer)
open Sangtachi.Requests (bodyText buildRequest)

/-- `random` gives the draws of each STUN client. -/
structure RunnerDeps where
  hostHeader : Bytes
  stunServers : List StunServer
  random : ℕ → ℕ → Option TransactionId

/-- What one action finds: the sources of the lobby, whether the request queue has room, whether the
tunnel makes the session, and the transitions of sessions meanwhile. -/
structure RunnerIo where
  lobby : LobbyIo
  own : List OwnSubnet
  queued : Bool
  opened : Bool
  moved : List SessionEvent

def RunnerIo.clock (io : RunnerIo) : Timers.Millis := BitVec.ofNat 64 io.lobby.now

/-- The lobby's name of a server is the text of its label. -/
def toMapping (m : StunClient.StunMapping) : Lobby.StunMapping :=
  ⟨String.ofList (m.server.map fun b => Char.ofNat b.toNat), m.mapped⟩

end Sangtachi.Runner

namespace Sangtachi.ControlRunner

open Sangtachi.BigEndian Sangtachi.Stun Sangtachi.Timers Sangtachi.Runner
open Sangtachi.Peer (SessionState SessionFailure isTerminal)
open Sangtachi.Lobby (Bytes ascii Op SubmitRequest LobbyAction LobbyEvent LobbyRole LobbyCommand
  SessionEvent TimerName)
open Sangtachi.StunClient (Client retryTimer deadlineTimer)
open Sangtachi.Requests (bodyText buildRequest)

variable (deps : RunnerDeps) (io : RunnerIo) (R : ControlRunner)

/-- Where the loop of `run` is under way already it goes on with the actions. -/
def run (actions : List LobbyAction) : ControlRunner :=
  { R with queue := R.queue ++ actions, running := true }

/-- A call of the lobby, and its actions. -/
def enter (event : LobbyEvent) : ControlRunner :=
  let L := R.lobby.step io.lobby event
  { R with lobby := L, told := R.told ++ [(R.queries, event)] }.run L.actions

/-- `on_session_transition`, for each of the transitions. -/
def pushMoved : ControlRunner :=
  { R with events := R.events ++ io.moved.map fun event => ⟨event, io.lobby.now⟩ }

/-! ## Record lines -/

def establish (role : LobbyRole) (peer : Option U32) (result : String) (rttUs : Option U64)
    (setupMs : Option ℕ) :
    ControlRunner :=
  { R with
    lastAttempt := R.lastAttempt + 1
    records := R.records ++ [⟨.establish, R.lastAttempt + 1, role, peer, result, rttUs, setupMs⟩] }

def recordEnd (attempt : ℕ) (role : LobbyRole) (peer : U32) (result : String) (rttUs : Option U64) :
    ControlRunner :=
  { R with records := R.records ++ [⟨.ends, attempt, role, some peer, result, rttUs, none⟩] }

def setTrack (peer : U32) (track : Track) : ControlRunner :=
  { R with tracks := R.tracks.filter (·.1 ≠ peer) ++ [(peer, track)] }

def dropTrack (peer : U32) : ControlRunner := { R with tracks := R.tracks.filter (·.1 ≠ peer) }

/-- The first time a session is connected, and its end, are one line each. -/
def record (queued : QueuedEvent) : ControlRunner :=
  let event := queued.event
  match R.tracks.lookup event.peerId with
  | none => R
  | some track =>
    if event.after = .connected ∧ track.connected = false then
      let R := R.establish track.role (some event.peerId) "OK" event.lastRttUs
        (some (queued.at_ - track.setupBaseMs))
      R.setTrack event.peerId { track with connected := true, attempt := R.lastAttempt }
    else if !isTerminal event.after then R
    else
      let result := recordResult event track.connected
      let R :=
        if track.connected then
          R.recordEnd track.attempt track.role event.peerId result event.lastRttUs
        else R.establish track.role (some event.peerId) result event.lastRttUs none
      R.dropTrack event.peerId

/-! ## The STUN client -/

def cancelQuery (timers : TimerSet Bytes) (server : ℕ) : TimerSet Bytes :=
  ((timers.cancel (retryTimer server)).1.cancel (deadlineTimer server)).1

def dropStun : ControlRunner :=
  match R.stun with
  | none => R
  | some _ =>
    { R with
      timers := (List.range deps.stunServers.length).foldl cancelQuery R.timers
      stun := none
      stunReported := false }

/-- The lobby is told once, when the client is first seen to be done. -/
def checkStunDone : ControlRunner :=
  match R.stun with
  | none => R
  | some c =>
    if R.stunReported ∨ !c.done then R
    else { R with stunReported := true }.enter io
      (.stunDone (c.phase = StunClient.StunPhase.succeeded) (c.mappings.map toMapping))

/-- The client as it works on the timers of the loop. -/
def client : Option Client := R.stun.map fun c => { c with timers := R.timers }

/-- The client after a call of it. -/
def withClient (c : Client) : ControlRunner := { R with stun := some c, timers := c.timers }

/-- The draws of the client there is. -/
def draws : ℕ → Option TransactionId := deps.random (R.queries - 1)

def startStun : ControlRunner :=
  let R := R.dropStun deps
  let c := ((Client.made deps.stunServers R.timers).start (deps.random R.queries) io.clock).1
  ({ R with queries := R.queries + 1, stunReported := false }.withClient c).checkStunDone io

def onStunDatagram (payload : List U8) : ControlRunner :=
  match R.client with
  | none => { R with dropStunParse := R.dropStunParse + 1 }
  | some c => (R.withClient (c.onDatagram (R.draws deps) payload io.clock)).checkStunDone io

/-! ## Actions -/

/-- A request that cannot be built, or finds the queue full, is dropped. -/
def submit (request : SubmitRequest) : ControlRunner :=
  match (bodyText request.body).bind (buildRequest deps.hostHeader request.op) with
  | some bytes =>
    if io.queued then { R with inFlight := R.inFlight ++ [⟨request.op, bytes, request.selfPeerId⟩] }
    else R.enter io .submitDropped
  | none => R.enter io .submitDropped

def armTimer (name : Bytes) (delayMs : ℕ) : ControlRunner :=
  match R.timers.addOnce name (BitVec.ofNat 64 delayMs) io.clock with
  | (timers, true) => { R with timers := timers }
  | (timers, false) => { R with timers := timers, rejected := R.rejected ++ [name] }

def openSession (peerId : U32) (role : LobbyRole) (setupBaseMs : ℕ) : ControlRunner :=
  let R := R.pushMoved io
  if io.opened then
    { R with opened := R.opened ++ [(role, peerId)] }.setTrack peerId ⟨role, setupBaseMs, false, 0⟩
  else R.enter io (.sessionOpenFailed peerId)

def execute : LobbyAction → ControlRunner
  | .submitRequest request => R.submit deps io request
  | .startStun => R.startStun deps io
  | .cancelStun => R.dropStun deps
  | .armTimer name delayMs => R.armTimer io (nameOf name) delayMs
  | .cancelTimer name => { R with timers := (R.timers.cancel (nameOf name)).1 }
  | .printLine _ | .guideLine _ | .logLine _ _ _ => R
  | .openSession request _ role setupBaseMs => R.openSession io request.peerId role setupBaseMs
  | .startPunch _ | .leaveRoom | .assignAddress _ | .startRoster _ | .setRosterPeers _ =>
    R.pushMoved io
  | .recordAttempt role peer result => R.establish role peer result none none

/-- One round of the loop of `run`: actions come before transitions. -/
def turn : ControlRunner :=
  match R.queue with
  | action :: rest =>
    { R with queue := rest, carried := R.carried ++ [action] }.execute deps io action
  | [] =>
    match R.events with
    | queued :: rest => ({ R with events := rest }.record queued).enter io (.session queued.event)
    | [] => { R with running := false }

/-! ## Calls of the loop -/

def onTimer (name : Bytes) : ControlRunner :=
  if ownsTimer name then
    match timerOf name with
    | some n => R.enter io (.timer n)
    | none => R.run []
  else
    match R.client with
    | none => R
    | some c =>
      if StunClient.ownsTimer name then
        (R.withClient (c.onTimer (R.draws deps) name io.clock)).checkStunDone io else R

/-- A call between two runs of the loop of `run`. A timer that expired is taken out of the set
before its name is handed over; `others` is what the rest of the program does with timers of its
own, and `tunnel` a call of the tunnel. -/
inductive Input where
  | start
  | command (command : LobbyCommand)
  | response (response : ControlResponse)
  | datagram (payload : List U8)
  | expired (t : Timer Bytes)
  | others (timers : TimerSet Bytes)
  | tunnel
  | flush
  | shutdown

def input : Input → ControlRunner
  | .start => R.enter io .start
  | .command command => R.enter io (.command command)
  | .response response =>
    { R with
      inFlight := R.inFlight.eraseP fun q =>
        q.op = response.op ∧ q.selfPeerId = response.selfPeerId }.enter io
      (.reply (interpret response io.own))
  | .datagram payload => R.onStunDatagram deps io payload
  | .expired t => { R with timers := R.timers.enter io.clock t }.onTimer deps io t.name
  | .others timers => { R with timers := timers }
  | .tunnel => R.pushMoved io
  | .flush => R.run []
  | .shutdown => R.enter io .shutdown

/-- The name is one of the lobby or of its STUN client. -/
def Foreign (name : Bytes) : Prop := ownsTimer name = false ∧ ¬StunClient.Owned name

/-- A response answers a request that is in flight, and carries its operation and its id. -/
def Possible : Input → Prop
  | .response response => ∃ q ∈ R.inFlight, q.op = response.op ∧ q.selfPeerId = response.selfPeerId
  | .expired t => t ∈ R.timers.timers ∧ t.repeating = false
  | .others timers => Idle timers ∧ ∀ t, ¬Foreign t.name → (t ∈ timers.timers ↔ t ∈ R.timers.timers)
  | _ => True

/-- The thread of the loop: a call from outside comes only when the loop of `run` has ended. -/
inductive Step (R : ControlRunner) : ControlRunner → Prop where
  | input (io : RunnerIo) (i : Input) : R.running = false → R.Possible i →
    Step R (R.input deps io i)
  | turn (io : RunnerIo) : R.running = true → Step R (R.turn deps io)

def made (name : Bytes) (timers : TimerSet Bytes) : ControlRunner :=
  { lobby := Lobby.create name, timers := timers }

inductive Reachable : ControlRunner → Prop where
  | made (name : Bytes) (timers : TimerSet Bytes) : Idle timers →
    (∀ t ∈ timers.timers, Foreign t.name) →
      Reachable (made name timers)
  | step {R R' : ControlRunner} : Reachable R → Step deps R R' → Reachable R'

end Sangtachi.ControlRunner
