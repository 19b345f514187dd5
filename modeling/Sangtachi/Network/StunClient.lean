import Sangtachi.Client.TimerSet
import Sangtachi.Network.EndpointText
import Sangtachi.Network.StunParser

/-! # The STUN client

When a request is sent, when a server is given up and which one comes next. The timers are those of
the loop. A draw of the random source is a transaction id or a failure, and the draws are numbered;
log lines are left out. -/
namespace Sangtachi.StunClient

open Sangtachi.BigEndian Sangtachi.Stun Sangtachi.Timers
open Sangtachi.Peer (Endpoint)
open Sangtachi.Lobby (Bytes ascii decimal)
open Sangtachi.Network (parseDecimal)

def stunRetryIntervalsMs : List Millis := [500, 1000, 2000]
def stunDeadlineMs : Millis := 5000
def stunConcurrency : ℕ := 2
def stunRequiredResponses : ℕ := 2

/-! ## Servers -/

structure StunServerName where
  host : Bytes
  port : U16
  deriving DecidableEq, Repr

structure StunServer where
  label : Bytes
  endpoint : Endpoint
  deriving DecidableEq, Repr

/-- Of the names with one address the first stays. -/
def resolveOne (resolve : Bytes → U16 → Option Endpoint) (out : List StunServer)
    (entry : StunServerName) :
    List StunServer :=
  match resolve entry.host entry.port with
  | none => out
  | some endpoint =>
    if out.any (·.endpoint = endpoint) then out
    else out ++ [⟨entry.host ++ ascii ":" ++ decimal entry.port.toNat, endpoint⟩]

def resolveStunServers (list : List StunServerName) (resolve : Bytes → U16 → Option Endpoint) :
    List StunServer :=
  list.foldl (resolveOne resolve) []

/-- The product does not wrap for a list that fits in memory. -/
def stunStageCapMs (serverCount : ℕ) : ℕ :=
  stunDeadlineMs.toNat * ((serverCount + stunConcurrency - 1) / stunConcurrency)

/-! ## Names of timers -/

def retryName : Bytes := ascii "stun.retry."
def deadlineName : Bytes := ascii "stun.deadline."
def maxIndexDigits : ℕ := 10

def retryTimer (serverIndex : ℕ) : Bytes := retryName ++ decimal serverIndex

def deadlineTimer (serverIndex : ℕ) : Bytes := deadlineName ++ decimal serverIndex

/-- The index behind the front of a name, in the digits that the client itself writes. -/
def tailIndex (name front : Bytes) : Option ℕ :=
  if name.take front.length ≠ front then
    none else parseDecimal maxIndexDigits 9999999999 (name.drop front.length)

def ownsTimer (name : Bytes) : Bool :=
  (tailIndex name retryName).isSome || (tailIndex name deadlineName).isSome

/-! ## The client -/

structure StunMapping where
  server : Bytes
  mapped : Endpoint
  deriving DecidableEq, Repr

inductive StunPhase where
  | idle | running | succeeded | failed
  deriving DecidableEq, Repr

structure Slot where
  active : Bool := false
  serverIndex : ℕ := 0
  transaction : TransactionId := Vector.replicate 12 0
  sent : ℕ := 0
  deriving DecidableEq

/-- A message handed to the socket, with the server it is for. -/
structure Request where
  server : ℕ
  endpoint : Endpoint
  message : List U8
  deriving DecidableEq, Repr

/-- With the loop's timers, what was sent so far and the number of draws. -/
structure Client where
  servers : List StunServer
  slots : Fin stunConcurrency → Slot := fun _ => {}
  nextServer : ℕ := 0
  mappings : List StunMapping := []
  resolved : List TransactionId := []
  phase : StunPhase := .idle
  timers : TimerSet Bytes
  dropStunParse : ℕ := 0
  sends : List Request := []
  draws : ℕ := 0

namespace Client

def done (c : Client) : Bool := c.phase = .succeeded || c.phase = .failed

def inFlight (c : Client) : ℕ := (List.finRange stunConcurrency).countP fun k => (c.slots k).active

def findSlot (c : Client) (serverIndex : ℕ) : Option (Fin stunConcurrency) :=
  (List.finRange stunConcurrency).find? fun k =>
    (c.slots k).active && (c.slots k).serverIndex = serverIndex

def freeSlot (c : Client) : Option (Fin stunConcurrency) :=
  (List.finRange stunConcurrency).find? fun k => !(c.slots k).active

def findTransaction (c : Client) (id : TransactionId) : Option (Fin stunConcurrency) :=
  (List.finRange stunConcurrency).find? fun k => (c.slots k).active && (c.slots k).transaction = id

def setSlot (c : Client) (k : Fin stunConcurrency) (slot : Slot) : Client :=
  { c with slots := Function.update c.slots k slot }

/-- A request that the socket refuses keeps its slot: the next retry stays. -/
def sendRequest (c : Client) (k : Fin stunConcurrency) : Client :=
  match c.servers[(c.slots k).serverIndex]? with
  | none => c
  | some server =>
    { c with
      sends := c.sends ++
        [⟨(c.slots k).serverIndex, server.endpoint, buildBindingRequest (c.slots k).transaction⟩] }

/-- A timer that is rejected is only logged. -/
def addOnce (c : Client) (name : Bytes) (delayMs now : Millis) : Client :=
  { c with timers := (c.timers.addOnce name delayMs now).1 }

def cancel (c : Client) (name : Bytes) : Client := { c with timers := (c.timers.cancel name).1 }

/-- The slot as the first request leaves it. -/
def launched (c : Client) (k : Fin stunConcurrency) (serverIndex : ℕ) (transaction : TransactionId)
    (now : Millis) :
    Client :=
  (((c.setSlot k ⟨true, serverIndex, transaction, 1⟩).sendRequest k).addOnce
    (retryTimer serverIndex)
    (stunRetryIntervalsMs.getD 0 0) now).addOnce (deadlineTimer serverIndex) stunDeadlineMs now

def beginQuery (random : ℕ → Option TransactionId) (c : Client) (k : Fin stunConcurrency)
    (serverIndex : ℕ) (now : Millis) :
    Client × Bool :=
  match random c.draws with
  | none => ({ c with draws := c.draws + 1 }, false)
  | some transaction =>
    (launched { c with draws := c.draws + 1 } k serverIndex transaction now, true)

/-- Every way out of a slot goes through here, so that a late response is known. -/
def release (c : Client) (k : Fin stunConcurrency) : Client :=
  let slot := c.slots k
  let c := (c.cancel (retryTimer slot.serverIndex)).cancel (deadlineTimer slot.serverIndex)
  { c with resolved := c.resolved ++ [slot.transaction] }.setSlot k
    { slot with active := false, sent := 0 }

def releaseActive (c : Client) (k : Fin stunConcurrency) : Client :=
  if (c.slots k).active then c.release k else c

def releaseAll (c : Client) : Client := (List.finRange stunConcurrency).foldl releaseActive c

def fail (c : Client) : Client := { c.releaseAll with phase := .failed }

/-- The loop of `refill`, and whether it ended without a failed draw. -/
def fill (random : ℕ → Option TransactionId) (now : Millis) : ℕ → Client → Client × Bool
  | 0, c => (c, true)
  | rounds + 1, c =>
    if c.mappings.length < stunRequiredResponses ∧ c.inFlight < stunConcurrency ∧
      c.nextServer < c.servers.length then
      match c.freeSlot with
      | none => (c, true)
      | some k =>
        match beginQuery random { c with nextServer := c.nextServer + 1 } k c.nextServer now with
        | (c, false) => (c.fail, false)
        | (c, true) => fill random now rounds c
    else (c, true)

def refill (random : ℕ → Option TransactionId) (c : Client) (now : Millis) : Client :=
  if c.done then c
  else
    match fill random now c.servers.length c with
    | (c, false) => c
    | (c, true) =>
      if stunRequiredResponses ≤ c.mappings.length then { c with phase := .succeeded }.releaseAll
      else if c.inFlight = 0 then c.fail
      else { c with phase := .running }

def start (random : ℕ → Option TransactionId) (c : Client) (now : Millis) : Client × Bool :=
  if c.phase ≠ .idle then (c, c.phase = .running)
  else if c.servers.length < stunRequiredResponses then (c.fail, false)
  else
    let c := c.refill random now
    (c, c.phase = .running)

/-- Another request of the slot, and the next retry while one is left. -/
def resend (c : Client) (k : Fin stunConcurrency) (now : Millis) : Client :=
  let sent := (c.slots k).sent + 1
  let c := (c.sendRequest k).setSlot k { c.slots k with sent := sent }
  if sent < stunRetryIntervalsMs.length + 1 then
    c.addOnce (retryTimer (c.slots k).serverIndex) (stunRetryIntervalsMs.getD (sent - 1) 0) now
  else c

def onTimer (random : ℕ → Option TransactionId) (c : Client) (name : Bytes)
    (now : Millis) : Client :=
  if c.done then c
  else
    match tailIndex name retryName with
    | some index =>
      match c.findSlot index with
      | none => c
      | some k => if stunRetryIntervalsMs.length + 1 ≤ (c.slots k).sent then c else c.resend k now
    | none =>
      match tailIndex name deadlineName with
      | none => c
      | some index =>
        match c.findSlot index with
        | none => c
        | some k => (c.release k).refill random now

def countDrop (c : Client) : Client := { c with dropStunParse := c.dropStunParse + 1 }

/-- What `release` and `refill` find after a response with a mapping, or an error response. -/
def answered (c : Client) (k : Fin stunConcurrency) (r : StunResponse) : Client :=
  match r.type, r.mapped, c.servers[(c.slots k).serverIndex]? with
  | .bindingErrorResponse, _, _ => c
  | _, some mapped, some server => { c with mappings := c.mappings ++ [⟨server.label, mapped⟩] }
  | _, _, _ => c

/-- A response is matched by its transaction id only, and is looked at in every phase. -/
def onDatagram (random : ℕ → Option TransactionId) (c : Client) (payload : List U8)
    (now : Millis) : Client :=
  match peekTransactionId payload with
  | .error _ | .ok none => c.countDrop
  | .ok (some id) =>
    if id ∈ c.resolved then c
    else
      match c.findTransaction id with
      | none => c.countDrop
      | some k =>
        match parseBindingResponse (payload.length + 1) payload (c.slots k).transaction with
        | .error _ => c.countDrop
        | .ok r => ((c.answered k r).release k).refill random now

end Client

end Sangtachi.StunClient
