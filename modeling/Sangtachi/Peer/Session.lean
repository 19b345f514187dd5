import Sangtachi.Tunnel.Packet
import Sangtachi.Tunnel.Replay
import Sangtachi.Tunnel.InnerIpv4

/-! # The session state machine

One session is one attempt with one peer. The configuration and the environment are
parameters; the state holds what the object stores, and `out` collects the calls it
makes to the outside during the operation under way. A clock reading has 64 bits in the program:
every sum of one wraps. -/
namespace Sangtachi.Peer

open Sangtachi.BigEndian Sangtachi.Packet Sangtachi.Replay Sangtachi.InnerIpv4

abbrev Millis := ℕ

/-- `now + interval` as the program adds them. -/
@[irreducible] def timeAfter (now interval : Millis) : Millis := (now + interval) % 2 ^ 64

theorem timeAfter_le (now interval : Millis) : timeAfter now interval ≤ now + interval := by
  unfold timeAfter
  exact Nat.mod_le _ _

theorem timeAfter_sub_le (now interval : Millis) : timeAfter now interval - now ≤ interval :=
  Nat.sub_le_of_le_add ((timeAfter_le now interval).trans_eq (Nat.add_comm _ _))

theorem timeAfter_of_fits {now interval : Millis} (h : now + interval < 2 ^ 64) :
    timeAfter now interval = now + interval := by
  unfold timeAfter
  exact Nat.mod_eq_of_lt h

theorem lt_timeAfter {now interval : Millis} (hpos : 0 < interval) (h : now + interval < 2 ^ 64) :
    now < timeAfter now interval := by
  rw [timeAfter_of_fits h]
  exact Nat.lt_add_of_pos_right hpos

/-! ## Constants -/

def maxPendingPings : ℕ := 16
def maxProbePaths : ℕ := 4
def maxRenegotiations : ℕ := 8
def minRenegIntervalMs : Millis := 1000
def unverifiedTxBucket : ℕ := 10
def unverifiedTxRefill : ℕ := 5
def helloRetransmitMs : Millis := 200
def punchDeadlineMs : Millis := 10000
def keepaliveIntervalMs : Millis := 15000
def idleTimeoutMs : Millis := 50000
def pingIntervalMs : Millis := 5000
def probeTtlMs : Millis := 5000
def pendingPingTtlMs : Millis := 5000

def tokenCost : ℕ := 1000
def bucketCapacity : ℕ := unverifiedTxBucket * tokenCost

/-! ## Types -/

structure Endpoint where
  address : U32
  port : U16
  deriving DecidableEq, Repr

inductive SessionState where
  | punching | handshaking | connected | failed | closed
  deriving DecidableEq, Repr

def isTerminal (st : SessionState) : Bool := st = .failed ∨ st = .closed

inductive SessionFailure where
  | holePunchTimeout | peerHandshakeFailed | tunnelDropped
  deriving DecidableEq, Repr

/-- The counters of a session, and those of the process for what reaches no session. -/
inductive Counter where
  | dropBadNonce | dropBadReason | dropDataEarly | dropDuplicate | dropInnerChecksum
  | dropInnerDst | dropInnerIhl | dropInnerLength | dropInnerNotIpv4 | dropInnerSrc
  | dropNoEpoch | dropNoSink | dropProbeFull | dropRenegLimit | dropRenegRate
  | dropRetiredEpoch | dropRosterDirection | dropRosterFlags | dropRosterName | dropRosterStale
  | dropStaleEpoch | dropTerminalState | dropTooOld | dropTypeLength | dropUnmatchedPong
  | dropUnverifiedTx | dropVipMismatch | dropShort | dropMagic | dropVersion | dropUnknownType
  | dropLength | dropUnknownPeer | dupAck | endpointLearned | pathProbeFailed | txErrAck | txErrSend
  | txDropShort | txDropNotIpv4 | txDropOversize | txDropBadSrc | txDropNotUnicast | txDropNoRoute
  | txDropNotConnected
  deriving DecidableEq, Repr

def PacketError.toCounter : PacketError → Counter
  | .short => .dropShort
  | .magic => .dropMagic
  | .version => .dropVersion
  | .unknownType => .dropUnknownType
  | .length => .dropLength
  | .typeLength => .dropTypeLength
  | .badReason => .dropBadReason
  | .rosterDirection => .dropRosterDirection
  | .rosterStale => .dropRosterStale
  | .rosterFlags => .dropRosterFlags
  | .rosterName => .dropRosterName

def InnerError.toCounter : InnerError → Counter
  | .notIpv4 => .dropInnerNotIpv4
  | .ihl => .dropInnerIhl
  | .checksum => .dropInnerChecksum
  | .length => .dropInnerLength
  | .src => .dropInnerSrc
  | .dst => .dropInnerDst

structure SessionConfig where
  localPeerId : U32
  localVirtualIp : U32
  peerId : U32
  peerVirtualIp : U32
  candidates : List Endpoint
  peerIsHost : Bool
  localEpoch : U32
  attemptNonce : Nonce
  deriving DecidableEq

/-- The environment. The k-th packet built by the session is sent with result `sendOk k`, the
k-th draw of a probe nonce gives `draw k`, and the k-th reading of the RTT clock, where there
is one, gives its k-th value. -/
structure SessionIo where
  sendOk : ℕ → Bool
  draw : ℕ → Option Nonce
  rttClockUs : Option (ℕ → U64)
  dataSink : Bool

structure RxPacket where
  header : Header
  payload : List U8
  source : Endpoint
  deriving DecidableEq, Repr

def RxPacket.type (p : RxPacket) : Option PacketType := PacketType.ofByte? p.header.type

/-- A datagram handed to the socket. `verified` records whether its destination was a candidate
or the peer endpoint at that moment. -/
structure Sent where
  type : PacketType
  fields : HeaderFields
  payload : List U8
  bytes : List U8
  dest : Endpoint
  ok : Bool
  verified : Bool
  deriving DecidableEq, Repr

inductive TimerKind where
  | hello | punch | keepalive | ping | idle
  deriving DecidableEq, Repr

inductive LogLine where
  | tick (kind : TimerKind) (elapsedMs : Millis)
  | failed (code : SessionFailure)
  | endpoint (e : Endpoint)
  | rtt (us : U64)
  | roster (generation : U32) (members : List RosterMember)
  deriving DecidableEq, Repr

/-- Calls to the outside, in the order they are made. -/
inductive Event where
  | sent (d : Sent)
  | transition (before after : SessionState)
  | delivered (inner : List U8)
  | retired (epoch : U32)
  | line (l : LogLine)
  deriving DecidableEq, Repr

/-- Counted in 64 bits, like the positions. -/
structure LossStats where
  expected : ℕ := 0
  accepted : ℕ := 0
  deriving DecidableEq, Repr

def LossStats.lost (l : LossStats) : ℕ := wrapPosition (l.expected + 2 ^ 64 - l.accepted)

structure PendingPing where
  id : U64
  sentMs : Millis
  sentUs : U64
  deriving DecidableEq, Repr

structure ProbePath where
  dest : Endpoint
  nonce : Nonce
  registered : Millis
  answered : Bool
  deriving DecidableEq, Repr

structure Timer where
  due : Option Millis := none
  since : Millis := 0
  deriving DecidableEq, Repr

structure Session where
  counters : Counter → ℕ := fun _ => 0
  gotAck : Bool := false
  sentAck : Bool := false
  terminal : Option SessionState := none
  failure : Option SessionFailure := none
  peerCloseReason : Option CloseReason := none
  terminalSince : Option Millis := none
  pinned : Option U32 := none
  window : ReplayWindow := {}
  lossBaseline : Option ℕ := none
  lossAccepted : ℕ := 0
  lossTotals : LossStats := {}
  nextSeq : U32 := 0
  peerEndpoint : Option Endpoint := none
  renegotiations : ℕ := 0
  lastRenegotiation : Option Millis := none
  pendingPings : List PendingPing := []
  nextPingId : U64 := 0
  lastRttUs : Option U64 := none
  rttSamples : ℕ := 0
  lastGeneration : Option U32 := none
  probes : List ProbePath := []
  budgetMilli : ℕ := bucketCapacity
  budgetAt : Millis
  punchStarted : Bool := false
  hello : Timer := {}
  punch : Timer := {}
  keepalive : Timer := {}
  ping : Timer := {}
  idle : Timer := {}
  /-- packets built, probe nonces drawn and RTT clock readings so far -/
  sends : ℕ := 0
  draws : ℕ := 0
  rttReads : ℕ := 0
  out : List Event := []

/-- A new session, `PUNCHING` with a full bucket. -/
def create (now : Millis) : Session := { budgetAt := now }

/-! ## Reading -/

def Session.state (s : Session) : SessionState :=
  match s.terminal with
  | some t => t
  | none =>
    if s.gotAck ∧ s.sentAck then .connected
    else if s.gotAck ∨ s.sentAck then .handshaking
    else .punching

def Session.active (s : Session) : Bool := !isTerminal s.state

def Session.loss (s : Session) : LossStats :=
  match s.lossBaseline with
  | none => s.lossTotals
  | some base =>
    { expected := wrapPosition (s.lossTotals.expected +
      wrapPosition (s.window.position + 2 ^ 64 - base))
      accepted := wrapPosition (s.lossTotals.accepted + s.lossAccepted) }

def isCandidate (cfg : SessionConfig) (e : Endpoint) : Bool := e ∈ cfg.candidates

def isVerified (cfg : SessionConfig) (s : Session) (e : Endpoint) : Bool :=
  isCandidate cfg e || s.peerEndpoint = some e

def Session.count (s : Session) (c : Counter) : Session :=
  { s with counters := Function.update s.counters c (s.counters c + 1) }

def Session.emit (s : Session) (e : Event) : Session := { s with out := s.out ++ [e] }

variable (cfg : SessionConfig) (io : SessionIo)

/-! ## Sending -/

/-- Takes the next sequence number and sends; the number is spent even when sending fails. -/
def sendPacket (s : Session) (type : PacketType) (payload : List U8) (dest : Endpoint) :
    Bool × Session :=
  let fields : HeaderFields := ⟨cfg.localPeerId, cfg.localEpoch, s.nextSeq⟩
  let ok := io.sendOk s.sends
  let s' := { s with nextSeq := s.nextSeq + 1, sends := s.sends + 1 }
  match buildPacket type fields payload maxDatagram with
  | none => (false, s')
  | some bytes =>
    let s' := s'.emit (.sent ⟨type, fields, payload, bytes, dest, ok, isVerified cfg s dest⟩)
    if ok then (true, s') else (false, s'.count .txErrSend)

/-- Lazy refill: the elapsed time is cut to the room left before it is multiplied. -/
def refillBudget (s : Session) (now : Millis) : Session :=
  if s.budgetAt < now then
    let room := bucketCapacity - s.budgetMilli
    let elapsed := min (now - s.budgetAt) room
    { s with
      budgetMilli := s.budgetMilli + min room (elapsed * unverifiedTxRefill)
      budgetAt := now }
  else s

def spendFor (s : Session) (dest : Endpoint) (now : Millis) : Bool × Session :=
  if isVerified cfg s dest then (true, s)
  else
    let s := refillBudget s now
    if s.budgetMilli < tokenCost then (false, s.count .dropUnverifiedTx)
    else (true, { s with budgetMilli := s.budgetMilli - tokenCost })

def ProbePath.expired (p : ProbePath) (now : Millis) : Bool :=
  timeAfter p.registered probeTtlMs ≤ now

/-- Removes the probes whose lifetime is over; each one without an echo is counted. -/
def expireProbes (s : Session) (now : Millis) : Session :=
  let failed := s.probes.countP (fun p => p.expired now && !p.answered)
  { s with
    probes := s.probes.filter (fun p => !p.expired now)
    counters := Function.update s.counters .pathProbeFailed (s.counters .pathProbeFailed + failed) }

def startPathProbe (s : Session) (source : Endpoint) (now : Millis) : Session :=
  let s := expireProbes s now
  if s.probes.any (·.dest = source) then s
  else if maxProbePaths ≤ s.probes.length then s.count .dropProbeFull
  else
    let drawn := io.draw s.draws
    let s := { s with draws := s.draws + 1 }
    match drawn with
    | none => s
    | some nonce =>
      match spendFor cfg s source now with
      | (false, s) => s
      | (true, s) =>
        let s := { s with probes := s.probes ++ [⟨source, nonce, now, false⟩] }
        (sendPacket cfg io s .hello (encodeHello ⟨nonce, cfg.localVirtualIp⟩) source).2

/-- One packet to each destination in turn, whatever the results. -/
def sendEach (s : Session) (type : PacketType) (payload : List U8)
    (dests : List Endpoint) : Session :=
  dests.foldl (fun s e => (sendPacket cfg io s type payload e).2) s

def sendToPeer (s : Session) (type : PacketType) (payload : List U8) : Session :=
  match s.peerEndpoint with
  | some e => (sendPacket cfg io s type payload e).2
  | none => sendEach cfg io s type payload cfg.candidates

/-- DATA to each destination in turn, stopping at the first failure. -/
def sendUntilFailure (s : Session) (inner : List U8) : List Endpoint → Bool × Session
  | [] => (true, s)
  | e :: rest =>
    match sendPacket cfg io s .data inner e with
    | (false, s) => (false, s)
    | (true, s) => sendUntilFailure s inner rest

def sendData (s : Session) (inner : List U8) : Bool × Session :=
  match s.peerEndpoint with
  | some e => sendPacket cfg io s .data inner e
  | none => sendUntilFailure cfg io s inner cfg.candidates

def sendRoster (s : Session) (payload : List U8) : Session := sendToPeer cfg io s .roster payload

def sendHelloRound (s : Session) : Session :=
  sendEach cfg io s .hello (encodeHello ⟨cfg.attemptNonce, cfg.localVirtualIp⟩) cfg.candidates

def sendHelloAck (s : Session) (echo : Nonce) (dest : Endpoint) (now : Millis) : Session :=
  match spendFor cfg s dest now with
  | (false, s) => s
  | (true, s) =>
    match sendPacket cfg io s .helloAck (encodeHello ⟨echo, cfg.localVirtualIp⟩) dest with
    | (true, s) => { s with sentAck := true }
    | (false, s) => s.count .txErrAck

def arm (now interval : Millis) : Timer := { due := some (timeAfter now interval), since := now }

def sendKeepalive (s : Session) (now : Millis) : Session :=
  { sendToPeer cfg io s .keepalive [] with keepalive := arm now keepaliveIntervalMs }

def expirePings (s : Session) (now : Millis) : Session :=
  { s with pendingPings := s.pendingPings.filter (fun p =>
    !(timeAfter p.sentMs pendingPingTtlMs ≤ now)) }

/-- Reads the RTT clock, 0 where there is none. -/
def readRttClock (s : Session) : U64 × Session :=
  match io.rttClockUs with
  | none => (0, s)
  | some clock => (clock s.rttReads, { s with rttReads := s.rttReads + 1 })

def sendPing (s : Session) (now : Millis) : Session :=
  let s := expirePings { s with ping := arm now pingIntervalMs } now
  if maxPendingPings ≤ s.pendingPings.length then s
  else
    let id := s.nextPingId
    let (sentUs, s) := readRttClock io { s with nextPingId := s.nextPingId + 1 }
    let kept := s.pendingPings.filter (·.id ≠ id)
    let s := { s with pendingPings := kept ++ [⟨id, now, sentUs⟩] }
    sendToPeer cfg io s .ping (encodePing id)

/-! ## State transitions -/

def stopTimers (s : Session) : Session :=
  { s with
    hello := { s.hello with due := none }
    punch := { s.punch with due := none }
    keepalive := { s.keepalive with due := none }
    ping := { s.ping with due := none }
    idle := { s.idle with due := none } }

def enterConnected (s : Session) (now : Millis) : Session :=
  let s :=
    { s with
      hello := { s.hello with due := none }
      punch := { s.punch with due := none }
      lossBaseline := some s.window.position
      lossAccepted := 0
      idle := arm now idleTimeoutMs
      ping := arm now pingIntervalMs }
  sendKeepalive cfg io s now

def notify (s : Session) (before after : SessionState) : Session :=
  s.emit (.transition before after)

/-- Called after the flags changed: reports a new state, and arms its timers on `CONNECTED`. -/
def settle (s : Session) (before : SessionState) (now : Millis) : Session :=
  let after := s.state
  if after = before then s
  else
    let s := if after = .connected then enterConnected cfg io s now else s
    notify s before after

def enterTerminal (s : Session) (terminal : SessionState) (now : Millis) : Session :=
  let before := s.state
  let s := { stopTimers s with probes := [], terminal := some terminal, terminalSince := some now }
  notify s before terminal

def sendClose (s : Session) (reason : CloseReason) : Session :=
  match s.peerEndpoint with
  | none => s
  | some e => (sendPacket cfg io s .close (encodeClose reason) e).2

def fail (s : Session) (failure : SessionFailure) (now : Millis) : Session :=
  let s := sendClose cfg io (stopTimers s) .setupFailed
  let s := { s with failure := some failure }
  enterTerminal (s.emit (.line (.failed failure))) .failed now

def closeByUser (s : Session) (now : Millis) : Session :=
  if !s.active then s
  else
    let reason := if s.state = .connected then CloseReason.normal else .userCancel
    enterTerminal (sendClose cfg io s reason) .closed now

/-! ## Timers -/

def startPunch (s : Session) (now : Millis) : Bool × Session :=
  if !s.active ∨ s.punchStarted then (false, s)
  else
    let s := { s with punchStarted := true }
    if s.state = .connected then (false, s)
    else
      let s := sendHelloRound cfg io s
      (true, { s with hello := arm now helloRetransmitMs, punch := arm now punchDeadlineMs })

def Timer.isDue (t : Timer) (now : Millis) : Bool := t.due.any (· ≤ now)

def emitTick (s : Session) (kind : TimerKind) (t : Timer) (now : Millis) : Session :=
  s.emit (.line (.tick kind (now - t.since)))

def earlier (a b : Option Millis) : Option Millis :=
  match a, b with
  | none, b => b
  | a, none => a
  | some x, some y => if y < x then some y else some x

def nextDeadline (s : Session) : Option Millis :=
  let timers := [s.hello.due, s.punch.due, s.keepalive.due, s.ping.due, s.idle.due]
  earlier (timers.foldl earlier none) (s.probes.head?.map (timeAfter ·.registered probeTtlMs))

def pollHello (s : Session) (now : Millis) : Session :=
  if s.hello.isDue now then
    { sendHelloRound cfg io (emitTick s .hello s.hello now) with
      hello := arm now helloRetransmitMs }
  else s

def pollKeepalive (s : Session) (now : Millis) : Session :=
  if s.keepalive.isDue now then sendKeepalive cfg io (emitTick s .keepalive s.keepalive now) now
  else s

def pollPing (s : Session) (now : Millis) : Session :=
  if s.ping.isDue now then sendPing cfg io (emitTick s .ping s.ping now) now else s

/-- Deadlines first, so that a session that ends does not send once more in the same round. -/
def poll (s : Session) (now : Millis) : Session :=
  if !s.active then s
  else
    let s := expireProbes s now
    if s.punch.isDue now then
      let failure := if s.gotAck ∨ s.sentAck then SessionFailure.peerHandshakeFailed
        else .holePunchTimeout
      fail cfg io (emitTick s .punch s.punch now) failure now
    else if s.idle.isDue now then
      fail cfg io (emitTick s .idle s.idle now) .tunnelDropped now
    else pollPing cfg io (pollKeepalive cfg io (pollHello cfg io s now) now) now

/-! ## Receiving -/

def learn (s : Session) (source : Endpoint) : Session :=
  if s.peerEndpoint = some source then s
  else
    { (s.count .endpointLearned).emit (.line (.endpoint source)) with peerEndpoint := some source }

/-- Steps 1 to 5 of a renegotiation: the old epoch is retired, the evidence and the receive
state are cleared, the new epoch is pinned. -/
def resetForEpoch (s : Session) (epoch : U32) (now : Millis) : Session :=
  { s with
    renegotiations := s.renegotiations + 1
    lastRenegotiation := some now
    out := s.out ++ s.pinned.toList.map .retired
    gotAck := false
    sentAck := false
    lossTotals := if s.lossBaseline.isSome then s.loss else s.lossTotals
    lossBaseline := none
    lossAccepted := if s.lossBaseline.isSome then 0 else s.lossAccepted
    window := s.window.reset
    pendingPings := []
    pinned := some epoch }

/-- Step 10, first half: KEEPALIVE, PING and the idle timer stop. -/
def stopTraffic (s : Session) : Session :=
  { s with
    keepalive := { s.keepalive with due := none }
    ping := { s.ping with due := none }
    idle := { s.idle with due := none } }

/-- Steps 7 and 10: a started punch begins anew. -/
def restartPunch (s : Session) (now : Millis) : Session :=
  if s.punchStarted then
    { sendHelloRound cfg io { s with punch := arm now punchDeadlineMs } with
      hello := arm now helloRetransmitMs }
  else s

def renegotiate (s : Session) (p : RxPacket) (nonce : Nonce) (now : Millis) : Session :=
  let answered := sendHelloAck cfg io (resetForEpoch s p.header.sessionEpoch now) nonce p.source now
  settle cfg io (restartPunch cfg io (stopTraffic answered) now) s.state now

/-- What the epoch and source check passes on. -/
inductive EpochPass where
  | hello (h : HelloPayload) (renegotiated : Bool)
  | ack (h : HelloPayload) (probe : Option ℕ)
  | other
  deriving DecidableEq, Repr

/-- The payload of a HELLO or HELLO_ACK once its length and virtual IP are checked. -/
def checkHello (p : RxPacket) : Except Counter HelloPayload :=
  match decodeHello p.payload with
  | .error _ => .error .dropTypeLength
  | .ok h => if h.virtualIp ≠ cfg.peerVirtualIp then .error .dropVipMismatch else .ok h

def probeIndex (s : Session) (nonce : Nonce) (source : Endpoint) : Option ℕ :=
  s.probes.findIdx? (fun q => q.nonce = nonce ∧ q.dest = source)

def checkEpochHello (s : Session) (p : RxPacket) (h : HelloPayload) (now : Millis) :
    Session × Except Counter EpochPass :=
  match s.pinned with
  | none => (s, .ok (.hello h false))
  | some pinned =>
    if p.header.sessionEpoch = pinned then (s, .ok (.hello h false))
    else if s.lastRenegotiation.any (fun last => now < timeAfter last minRenegIntervalMs) then
      (s, .error .dropRenegRate)
    else if maxRenegotiations ≤ s.renegotiations then (s, .error .dropRenegLimit)
    else (renegotiate cfg io s p h.nonce now, .ok (.hello h true))

def checkEpochAck (s : Session) (p : RxPacket) (h : HelloPayload) (now : Millis) :
    Session × Except Counter EpochPass :=
  let s := expireProbes s now
  match probeIndex s h.nonce p.source with
  | some i =>
    if s.pinned = some p.header.sessionEpoch then (s, .ok (.ack h (some i)))
    else (s, .error .dropStaleEpoch)
  | none =>
    if h.nonce ≠ cfg.attemptNonce then (s, .error .dropBadNonce)
    else if s.pinned.any (· ≠ p.header.sessionEpoch) then (s, .error .dropStaleEpoch)
    else (s, .ok (.ack h none))

def checkEpoch (s : Session) (p : RxPacket) (now : Millis) : Session × Except Counter EpochPass :=
  match p.type with
  | some .hello =>
    match checkHello cfg p with
    | .error c => (s, .error c)
    | .ok h => checkEpochHello cfg io s p h now
  | some .helloAck =>
    match checkHello cfg p with
    | .error c => (s, .error c)
    | .ok h => checkEpochAck cfg s p h now
  | _ =>
    match s.pinned with
    | none => (s, .error .dropNoEpoch)
    | some pinned =>
      if p.header.sessionEpoch ≠ pinned then (s, .error .dropStaleEpoch) else (s, .ok .other)

/-- The window takes the packet; an accepted position above the baseline is counted. -/
def recordPacket (s : Session) (seq : U32) : ReplayDecision × Session :=
  let (d, window) := s.window.accept seq
  let counted := d.accepted && s.lossBaseline.any (· < d.pktPos)
  (d, { s with
        window := window
        lossAccepted := if counted then wrapPosition (s.lossAccepted + 1) else s.lossAccepted })

/-- What the checks of the type read from the payload. -/
inductive Body where
  | bare
  | data
  | ping (id : U64)
  | pong (id : U64)
  | close (reason : CloseReason)
  | roster (r : Roster)
  deriving DecidableEq, Repr

def checkType (s : Session) (p : RxPacket) (now : Millis) : Session × Except Counter Body :=
  match p.type with
  | some .data =>
    if s.state ≠ .connected then (s, .error .dropDataEarly)
    else
      match checkInnerIpv4 p.payload cfg.peerVirtualIp cfg.localVirtualIp with
      | some e => (s, .error (InnerError.toCounter e))
      | none => (s, .ok .data)
  | some .ping =>
    match decodePing p.payload with
    | .error _ => (s, .error .dropTypeLength)
    | .ok id => (s, .ok (.ping id))
  | some .pong =>
    match decodePing p.payload with
    | .error _ => (s, .error .dropTypeLength)
    | .ok id =>
      let s := expirePings s now
      if s.pendingPings.any (·.id = id) then (s, .ok (.pong id))
      else (s, .error .dropUnmatchedPong)
  | some .close =>
    match decodeClose p.payload with
    | .error e => (s, .error (PacketError.toCounter e))
    | .ok reason => (s, .ok (.close reason))
  | some .roster =>
    match decodeRoster p.payload ⟨cfg.peerIsHost, s.lastGeneration⟩ with
    | .error e => (s, .error (PacketError.toCounter e))
    | .ok r => (s, .ok (.roster r))
  | _ => (s, .ok .bare)

def markAnswered (s : Session) (i : ℕ) : Session :=
  { s with probes := s.probes.modify i (fun q => { q with answered := true }) }

/-- Endpoint learning. Returns whether the source is to be raised to a probed path. -/
def learnSource (s : Session) (p : RxPacket) (pass : EpochPass) (d : ReplayDecision) :
    Bool × Session :=
  match pass with
  | .ack _ (some i) =>
    let s := markAnswered s i
    (false, if d.advanced then learn s p.source else s)
  | _ =>
    if d.advanced then
      if isVerified cfg s p.source then (false, learn s p.source) else (true, s)
    else (false, s)

def takePong (s : Session) (id : U64) : Session :=
  let s :=
    match s.pendingPings.find? (·.id = id), io.rttClockUs with
    | some ping, some _ =>
      let (nowUs, s) := readRttClock io s
      let rtt := nowUs - ping.sentUs
      { s.emit (.line (.rtt rtt)) with lastRttUs := some rtt, rttSamples := s.rttSamples + 1 }
    | _, _ => s
  { s with pendingPings := s.pendingPings.filter (·.id ≠ id) }

def takeRoster (s : Session) (r : Roster) : Session :=
  if s.lastGeneration = some r.generation then s
  else
    { s.emit (.line (.roster r.generation r.members)) with lastGeneration := some r.generation }

def sendPong (s : Session) (pingId : U64) (dest : Endpoint) (now : Millis) : Session :=
  match spendFor cfg s dest now with
  | (false, s) => s
  | (true, s) => (sendPacket cfg io s .pong (encodePing pingId) dest).2

/-- The action of the transition table for a packet that is neither HELLO nor HELLO_ACK. -/
def actOther (s : Session) (p : RxPacket) (now : Millis) : Body → Session
  | .ping id => sendPong cfg io s id p.source now
  | .pong id => takePong io s id
  | .roster r => takeRoster s r
  | .data => if io.dataSink then s.emit (.delivered p.payload) else s
  | .close _ => s
  | .bare => s

/-- The action of the transition table for the packet, other than CLOSE. -/
def act (s : Session) (p : RxPacket) (pass : EpochPass) (body : Body) (before : SessionState)
    (now : Millis) : Session :=
  match pass with
  | .hello h _ => sendHelloAck cfg io s h.nonce p.source now
  | .ack _ (some _) => s
  | .ack _ none => if before = .connected then s.count .dupAck else { s with gotAck := true }
  | .other => actOther cfg io s p now body

/-- The first valid HELLO or HELLO_ACK pins the epoch. -/
def pin (s : Session) (epoch : U32) : Session :=
  if s.pinned.isNone then { s with pinned := some epoch } else s

def renewIdle (s : Session) (before : SessionState) (now : Millis) : Session :=
  if before = .connected then { s with idle := arm now idleTimeoutMs } else s

def raiseSource (s : Session) (source : Endpoint) (probeSource : Bool) (now : Millis) : Session :=
  if probeSource then startPathProbe cfg io s source now else s

/-- DATA that no sink took is a drop, after everything else was done. -/
def dropWithoutSink (s : Session) (body : Body) : Option Counter × Session :=
  if body = .data ∧ !io.dataSink then (some .dropNoSink, s.count .dropNoSink) else (none, s)

/-- The side effects of a packet that passed every check and was no renegotiation. -/
def applyEffects (s : Session) (p : RxPacket) (pass : EpochPass) (d : ReplayDecision) (body : Body)
    (now : Millis) : Option Counter × Session :=
  let before := s.state
  match learnSource cfg (pin s p.header.sessionEpoch) p pass d with
  | (probeSource, s) =>
    let s := renewIdle s before now
    match body with
    | .close reason => (none, enterTerminal { s with peerCloseReason := some reason } .closed now)
    | _ =>
      let acted := raiseSource cfg io (act cfg io s p pass body before now) p.source probeSource now
      dropWithoutSink io (settle cfg io acted before now) body

def EpochPass.renegotiated : EpochPass → Bool
  | .hello _ r => r
  | _ => false

/-- A renegotiating HELLO has done its work already; its source may become a probed path. -/
def afterRenegotiation (s : Session) (p : RxPacket) (now : Millis) : Session :=
  if isVerified cfg s p.source then s else startPathProbe cfg io s p.source now

/-- Everything after the epoch check: window, checks of the type, side effects. -/
def receivePassed (s : Session) (p : RxPacket) (pass : EpochPass) (now : Millis) :
    Option Counter × Session :=
  match recordPacket s p.header.sequence with
  | (d, s) =>
    match d.verdict with
    | .duplicate => (some .dropDuplicate, s.count .dropDuplicate)
    | .tooOld => (some .dropTooOld, s.count .dropTooOld)
    | _ =>
      match checkType cfg s p now with
      | (s, .error c) => (some c, s.count c)
      | (s, .ok body) =>
        if pass.renegotiated then (none, afterRenegotiation cfg io s p now)
        else applyEffects cfg io s p pass d body now

/-- Takes one packet; the result is the drop counter, or nothing when it was accepted. -/
def receive (s : Session) (p : RxPacket) (now : Millis) : Option Counter × Session :=
  if !s.active then (some .dropTerminalState, s.count .dropTerminalState)
  else
    match checkEpoch cfg io s p now with
    | (s, .error c) => (some c, s.count c)
    | (s, .ok pass) => receivePassed cfg io s p pass now

/-! ## Operations and runs -/

inductive Op where
  | startPunch
  | poll
  | receive (p : RxPacket)
  | sendData (inner : List U8)
  | sendRoster (payload : List U8)
  | closeByUser
  deriving DecidableEq, Repr

def Op.apply (s : Session) (now : Millis) : Op → Session
  | .startPunch => (Peer.startPunch cfg io s now).2
  | .poll => Peer.poll cfg io s now
  | .receive p => (Peer.receive cfg io s p now).2
  | .sendData inner => (Peer.sendData cfg io s inner).2
  | .sendRoster payload => Peer.sendRoster cfg io s payload
  | .closeByUser => Peer.closeByUser cfg io s now

/-- One public call at `now`; `out` holds the calls it makes. -/
def step (s : Session) (op : Op) (now : Millis) : Session :=
  op.apply cfg io { s with out := [] } now

/-- One call of a run, with the states around it. -/
structure Entry where
  now : Millis
  op : Op
  before : Session
  after : Session

/-- A run from the creation of the session, with a clock that never goes back. -/
inductive Execution : List Entry → Millis → Session → Prop where
  | start (t : Millis) : Execution [] t (create t)
  | call {h t s} (op : Op) (now : Millis) : Execution h t s → t ≤ now →
      Execution (h ++ [⟨now, op, s, step cfg io s op now⟩]) now (step cfg io s op now)

def Reachable (s : Session) : Prop := ∃ h t, Execution cfg io h t s

/-- The calls of a whole run, each with the time of the operation that made it. -/
def log (h : List Entry) : List (Millis × Event) :=
  h.flatMap (fun e => e.after.out.map (fun x => (e.now, x)))

end Sangtachi.Peer
