import Sangtachi.Peer.Epoch
import Sangtachi.Tunnel.Router
import Sangtachi.Tunnel.RosterPublisher

/-! # The tunnel

The table of sessions, the routing table, the retired epochs and nonces, and the checks that stand
in front of a session. Each session object has its own environment; its calls to the outside are
acted on when the call of the session returns, in the order they were made. -/
namespace Sangtachi.Tunnel

open Sangtachi.BigEndian Sangtachi.Packet Sangtachi.Peer

def terminalSessionTtlMs : Millis := 120000

/-! ## Types -/

/-- What a new session is made from. The epoch and the nonce are drawn by the tunnel. -/
structure NewSession where
  localPeerId : U32
  localVirtualIp : U32
  peerId : U32
  peerVirtualIp : U32
  candidates : List Endpoint
  peerIsHost : Bool
  deriving DecidableEq, Repr

structure Entry where
  id : SessionId
  cfg : SessionConfig
  session : Session
  epochRetired : Bool := false
  nonceRetired : Bool := false

inductive TxOutcome where
  | sent | dropped | sendFailed
  deriving DecidableEq, Repr

end Sangtachi.Tunnel

namespace Sangtachi

open BigEndian Packet Peer Tunnel

/-- The table is kept in the order of the peer ids. `out` collects the calls that the sessions
make to the outside during the operation under way. -/
structure Tunnel where
  counters : Counter → ℕ := fun _ => 0
  sessions : List Tunnel.Entry := []
  retired : RetiredEpochs := {}
  retiredNonces : RetiredNonces := {}
  endedNonces : List Nonce := []
  routes : Router := {}
  roster : RosterPublisher := {}
  localVip : Option U32 := none
  nextId : SessionId := 0
  out : List (SessionId × Event) := []

end Sangtachi

namespace Sangtachi.Tunnel

open Sangtachi.BigEndian Sangtachi.Packet Sangtachi.Peer

/-! ## Reading -/

def find (T : Tunnel) (peerId : U32) : Option Entry := T.sessions.find? (·.cfg.peerId = peerId)

def terminalCount (T : Tunnel) : ℕ := T.sessions.countP (fun e => !e.session.active)

def route (T : Tunnel) (virtualIp : U32) : Option SessionId := T.routes.lookup virtualIp

/-- The peers of the sessions that are connected, in the order of the table. -/
def connected (T : Tunnel) : List U32 :=
  (T.sessions.filter (fun e => e.session.state = .connected)).map (·.cfg.peerId)

def earliestDeadline (T : Tunnel) : Option Millis :=
  let deadlines := T.sessions.flatMap (fun e =>
    [nextDeadline e.session, e.session.terminalSince.map (timeAfter · terminalSessionTtlMs)])
  earlier (deadlines.foldl earlier none) T.roster.earliest

/-! ## Calls of a session -/

def count (T : Tunnel) (c : Counter) : Tunnel :=
  { T with counters := Function.update T.counters c (T.counters c + 1) }

def update (T : Tunnel) (peerId : U32) (f : Session → Session) : Tunnel :=
  { T with
    sessions := T.sessions.map
      (fun e => if e.cfg.peerId = peerId then { e with session := f e.session } else e) }

def countFor (T : Tunnel) (peerId : U32) (c : Counter) : Tunnel := T.update peerId (·.count c)

/-- A terminal state empties the slot of the session; the session itself stays. -/
def onTransition (T : Tunnel) (e : Entry) (before after : SessionState) : Tunnel :=
  let T :=
    if (before = .connected) ≠ (after = .connected) then
      { T with roster := T.roster.onConnectedChange e.cfg.peerId (after = .connected) }
    else T
  if isTerminal after then { T with routes := T.routes.release e.id } else T

/-- What the tunnel does on a call to the outside that one of its sessions makes. -/
def onEvent (now : Millis) (e : Entry) (T : Tunnel) : Event → Tunnel
  | .retired epoch => { T with retired := T.retired.add epoch now }
  | .transition before after => T.onTransition e before after
  | _ => T

def onEvents (T : Tunnel) (now : Millis) (e : Entry) (events : List Event) : Tunnel :=
  events.foldl (onEvent now e) { T with out := T.out ++ events.map (fun x => (e.id, x)) }

variable (io : SessionId → SessionIo)

def call (T : Tunnel) (peerId : U32) (op : Op) (now : Millis) : Tunnel :=
  match T.find peerId with
  | none => T
  | some e =>
    let session := step e.cfg (io e.id) e.session op now
    (T.update peerId fun _ => session).onEvents now e session.out

/-- The same call of every session, in the order of the table. -/
def callAll (T : Tunnel) (op : Op) (now : Millis) : Tunnel :=
  (T.sessions.map (·.cfg.peerId)).foldl (fun T peerId => T.call io peerId op now) T

/-! ## Retention -/

def erase (T : Tunnel) (e : Entry) : Tunnel :=
  { T with
    sessions := T.sessions.filter (·.cfg.peerId ≠ e.cfg.peerId)
    endedNonces := if e.nonceRetired then T.endedNonces else T.endedNonces ++ [e.cfg.attemptNonce] }

/-- Keeps the one that ended first; of several, the one that stands first. -/
def older (best : Option Entry) (e : Entry) : Option Entry :=
  match e.session.terminalSince, best with
  | none, _ => best
  | some _, none => some e
  | some since, some b => if b.session.terminalSince.any (since < ·) then some e else best

def oldest (T : Tunnel) : Option Entry := T.sessions.foldl older none

/-- Erases ended sessions, the oldest first, while there are too many. -/
def enforceRetentionCap : ℕ → Tunnel → Tunnel
  | 0, T => T
  | fuel + 1, T =>
    if T.terminalCount ≤ maxPeers - 1 then T
    else
      match T.oldest with
      | none => T
      | some e => enforceRetentionCap fuel (T.erase e)

def capped (T : Tunnel) : Tunnel := enforceRetentionCap T.sessions.length T

def isExpired (now : Millis) (e : Entry) : Bool :=
  e.session.terminalSince.any (timeAfter · terminalSessionTtlMs ≤ now)

/-- Erases every session that ended long enough ago. -/
def eraseExpired (T : Tunnel) (now : Millis) : Tunnel :=
  (T.sessions.filter (isExpired now)).foldl erase T

/-! ## Public operations -/

/-- The start of a new attempt: the epochs of the peers of ended sessions are retired, and the
nonces of ended attempts, those of erased sessions last. -/
def registerEnded (T : Tunnel) (now : Millis) : Tunnel :=
  let ended := T.sessions.filter (fun e => !e.session.active)
  let epochs := (ended.filter (fun e => !e.epochRetired)).filterMap (·.session.pinned)
  let nonces := (ended.filter (fun e => !e.nonceRetired)).map (·.cfg.attemptNonce)
  { T with
    sessions := T.sessions.map (fun e =>
      if e.session.active then e else { e with epochRetired := true, nonceRetired := true })
    retired := epochs.foldl (fun r x => r.add x now) T.retired
    retiredNonces := (nonces ++ T.endedNonces).foldl (fun r x => r.add x now) T.retiredNonces
    endedNonces := [] }

def newEntry (T : Tunnel) (request : NewSession) (epoch : U32) (nonce : Nonce)
    (now : Millis) : Entry where
  id := T.nextId
  cfg :=
    { localPeerId := request.localPeerId
      localVirtualIp := request.localVirtualIp
      peerId := request.peerId
      peerVirtualIp := request.peerVirtualIp
      candidates := request.candidates
      peerIsHost := request.peerIsHost
      localEpoch := epoch
      attemptNonce := nonce }
  session := create now

/-- Puts the entry into the table; an ended session of the same peer goes without a trace, its
values are registered already. -/
def insert (T : Tunnel) (e : Entry) : Tunnel :=
  { T with
    sessions := (T.sessions.filter (·.cfg.peerId ≠ e.cfg.peerId)).orderedInsert
      (fun a b => a.cfg.peerId ≤ b.cfg.peerId) e
    routes := (T.routes.assign e.cfg.peerVirtualIp e.id).2
    localVip := some e.cfg.localVirtualIp
    nextId := T.nextId + 1 }

/-- The request can get a slot, and no session with the peer is active. -/
def admits (T : Tunnel) (request : NewSession) : Bool :=
  !(T.find request.peerId).any (·.session.active) && (routeIndex request.peerVirtualIp).isSome &&
    request.peerVirtualIp ≠ request.localVirtualIp && (T.route request.peerVirtualIp).isNone

/-- Returns the new session. `epochDraws` and `nonceDraws` are what the random source gives for
the epoch and the nonce before it fails. -/
def createSession (T : Tunnel) (request : NewSession) (epochDraws : List U32)
    (nonceDraws : List Nonce) (now : Millis) :
    Option SessionId × Tunnel :=
  if !T.admits request then (none, T)
  else
    let T := T.registerEnded now
    match generateSessionEpoch epochDraws with
    | none => (none, T)
    | some epoch =>
      match generateAttemptNonce T.retiredNonces now nonceDraws with
      | none => (none, T)
      | some nonce => (some T.nextId, T.insert (T.newEntry request epoch nonce now))

def onDatagram (T : Tunnel) (source : Endpoint) (datagram : List U8) (now : Millis) : Tunnel :=
  match checkCommon datagram with
  | .error e => T.count (PacketError.toCounter e)
  | .ok (header, payload) =>
    match T.find header.peerId with
    | none => T.count .dropUnknownPeer
    | some e =>
      if T.retired.contains header.sessionEpoch now then T.countFor header.peerId .dropRetiredEpoch
      else if !e.session.active then T.countFor header.peerId .dropTerminalState
      else (T.call io header.peerId (.receive ⟨header, payload, source⟩) now).capped

def sendData (T : Tunnel) (inner : List U8) (now : Millis) : TxOutcome × Tunnel :=
  if inner.length < 20 then (.dropped, T.count .txDropShort)
  else if read8 inner 0 >>> 4 ≠ 4 then (.dropped, T.count .txDropNotIpv4)
  else if maxInner < inner.length then (.dropped, T.count .txDropOversize)
  else if T.localVip ≠ some (read32 inner 12) then (.dropped, T.count .txDropBadSrc)
  else if isNotUnicast (read32 inner 16) then (.dropped, T.count .txDropNotUnicast)
  else
    match (T.route (read32 inner 16)).bind (fun id => T.sessions.find? (·.id = id)) with
    | none => (.dropped, T.count .txDropNoRoute)
    | some e =>
      if e.session.state ≠ .connected then (.dropped, T.countFor e.cfg.peerId .txDropNotConnected)
      else
        let ok := (Peer.sendData e.cfg (io e.id) { e.session with out := [] } inner).1
        (if ok then .sent else .sendFailed, T.call io e.cfg.peerId (.sendData inner) now)

def sendRosters (T : Tunnel) (now : Millis) (sends : List RosterSend) : Tunnel :=
  sends.foldl (fun T x => T.call io x.1 (.sendRoster x.2) now) T

def runRoster (T : Tunnel) (now : Millis) : Tunnel :=
  let (sends, roster) := T.roster.run now T.connected
  { T with roster := roster }.sendRosters io now sends

/-- Session timers, then the roster, then the ended sessions whose time is over. -/
def runTimers (T : Tunnel) (now : Millis) : Tunnel :=
  (((T.callAll io .poll now).runRoster io now).eraseExpired now).capped

def closeAll (T : Tunnel) (now : Millis) : Tunnel := (T.callAll io .closeByUser now).capped

/-- Closes the sessions and erases all of them, also those that had ended. -/
def leaveRoom (T : Tunnel) (now : Millis) : Tunnel :=
  let T := T.callAll io .closeByUser now
  { T.sessions.foldl erase T with localVip := none, roster := T.roster.stop }

/-! ## Runs -/

inductive Action where
  | createSession (request : NewSession) (epochDraws : List U32) (nonceDraws : List Nonce)
  | onDatagram (source : Endpoint) (datagram : List U8)
  | sendData (inner : List U8)
  | runTimers
  | closeAll
  | leaveRoom
  | startPunch (peerId : U32)
  | setLocalVirtualIp (virtualIp : U32)
  | startRoster (self : RosterPeer)
  | setRosterPeers (peers : List RosterPeer)
  deriving DecidableEq

def Action.apply (T : Tunnel) (now : Millis) : Action → Tunnel
  | .createSession request epochDraws nonceDraws =>
    (T.createSession request epochDraws nonceDraws now).2
  | .onDatagram source datagram => T.onDatagram io source datagram now
  | .sendData inner => (T.sendData io inner now).2
  | .runTimers => T.runTimers io now
  | .closeAll => T.closeAll io now
  | .leaveRoom => T.leaveRoom io now
  | .startPunch peerId => T.call io peerId .startPunch now
  | .setLocalVirtualIp virtualIp => { T with localVip := some virtualIp }
  | .startRoster self => { T with roster := T.roster.start self }
  | .setRosterPeers peers => { T with roster := T.roster.setPeers peers }

/-- One public call at `now`; `out` holds the calls the sessions make. -/
def perform (T : Tunnel) (a : Action) (now : Millis) : Tunnel := a.apply io { T with out := [] } now

/-- One call of a run, with the states around it. -/
structure Turn where
  now : Millis
  action : Action
  before : Tunnel
  after : Tunnel

/-- A run from the start of the process, with a clock that never goes back. -/
inductive Run : List Turn → Millis → Tunnel → Prop where
  | start (t : Millis) : Run [] t {}
  | turn {h t T} (a : Action) (now : Millis) : Run h t T → t ≤ now →
      Run (h ++ [⟨now, a, T, T.perform io a now⟩]) now (T.perform io a now)

end Sangtachi.Tunnel
