import Sangtachi.Peer.Session

/-! # The roster publisher

The host sends the list of the members of the room to every connected session: once at each
change, twice more shortly after it, and then at a fixed interval. -/
namespace Sangtachi.Tunnel

open Sangtachi.BigEndian Sangtachi.Packet Sangtachi.Peer

def rosterIntervalMs : Millis := 15000
def rosterResendIntervalMs : Millis := 5000
def rosterResendCount : ℕ := 2

structure RosterPeer where
  peerId : U32
  virtualIp : U32
  name : List U8
  deriving DecidableEq, Repr

/-- The timers of one connected session. -/
structure Schedule where
  peerId : U32
  periodDue : Option Millis := none
  periodSince : Millis := 0
  resendDue : Option Millis := none
  resendSince : Millis := 0
  resendsLeft : ℕ := 0
  deriving DecidableEq, Repr

/-- What a roster says besides its generation: the number of members, and the first of them. -/
structure RosterContent where
  count : ℕ
  members : List RosterMember
  deriving DecidableEq, Repr

structure RosterPublisher where
  self : Option RosterPeer := none
  peers : List RosterPeer := []
  generation : U32 := 0
  last : Option RosterContent := none
  forcedChange : Bool := false
  schedules : List Schedule := []
  dirty : Bool := false
  deriving DecidableEq, Repr

/-- A payload handed to the session of a peer. -/
abbrev RosterSend := U32 × List U8

def member (p : RosterPeer) (connected : Bool) : RosterMember :=
  ⟨p.peerId, p.virtualIp, connected, p.name.take maxNameLen⟩

namespace RosterPublisher

/-- `connected` are the peers of the sessions that are connected. -/
def build (self : RosterPeer) (peers : List RosterPeer) (connected : List U32) : RosterContent :=
  let members := member self true :: peers.map (fun p => member p (p.peerId ∈ connected))
  ⟨min members.length 255, members.take maxPeers⟩

def start (r : RosterPublisher) (self : RosterPeer) : RosterPublisher :=
  { r with
    self := some self
    peers := []
    generation := 0
    schedules := []
    last := some (build self [] [])
    forcedChange := false
    dirty := true }

def stop (r : RosterPublisher) : RosterPublisher :=
  { r with
    self := none
    peers := []
    schedules := []
    last := none
    forcedChange := false
    dirty := false }

def setPeers (r : RosterPublisher) (peers : List RosterPeer) : RosterPublisher :=
  { r with peers := peers, dirty := true }

/-- A session became connected or left that state. Leaving drops its timers at once. -/
def onConnectedChange (r : RosterPublisher) (peerId : U32) (entered : Bool) : RosterPublisher :=
  if r.self.isNone then r
  else
    { r with
      schedules := if entered then r.schedules else r.schedules.filter (·.peerId ≠ peerId)
      forcedChange := r.forcedChange || r.peers.any (·.peerId = peerId)
      dirty := true }

/-- The payload of the last roster under the present generation, where it can be written. -/
def payload (r : RosterPublisher) : Option (List U8) :=
  r.last.bind fun c => encodeRoster r.generation c.count c.members rosterMaxPayload

/-- Sends to one session; every send starts its period anew. -/
def send (r : RosterPublisher) (sch : Schedule) (now : Millis) : List RosterSend × Schedule :=
  (r.payload.toList.map (fun bytes => (sch.peerId, bytes)),
    { sch with periodDue := some (timeAfter now rosterIntervalMs), periodSince := now })

def schedule (r : RosterPublisher) (peerId : U32) : Option Schedule :=
  r.schedules.find? (·.peerId = peerId)

def setSchedule (r : RosterPublisher) (sch : Schedule) : RosterPublisher :=
  { r with schedules := r.schedules.filter (·.peerId ≠ sch.peerId) ++ [sch] }

/-- One connected session at a refresh. One without a schedule has just entered. -/
def refreshOne (changed : Bool) (now : Millis) (r : RosterPublisher) (peerId : U32) :
    List RosterSend × RosterPublisher :=
  let sch := (r.schedule peerId).getD { peerId := peerId }
  if changed then
    let (sends, sch) := r.send sch now
    (sends, r.setSchedule
      { sch with
        resendsLeft := rosterResendCount
        resendDue := some (timeAfter now rosterResendIntervalMs)
        resendSince := now })
  else if (r.schedule peerId).isNone then
    let (sends, sch) := r.send sch now
    (sends, r.setSchedule sch)
  else ([], r)

/-- The resend and the period of one connected session, where they are due. -/
def runOne (now : Millis) (r : RosterPublisher) (peerId : U32) :
    List RosterSend × RosterPublisher :=
  match r.schedule peerId with
  | none => ([], r)
  | some sch =>
    let (first, sch) :=
      if sch.resendDue.any (· ≤ now) then
        let (sends, sch) := r.send sch now
        (sends,
          { sch with
            resendsLeft := sch.resendsLeft - 1
            resendSince := now
            resendDue := if 0 < sch.resendsLeft - 1 then
              some (timeAfter now rosterResendIntervalMs) else none })
      else ([], sch)
    let (second, sch) := if sch.periodDue.any (· ≤ now) then r.send sch now else ([], sch)
    (first ++ second, r.setSchedule sch)

/-- One part after the other, with everything that was sent. -/
def forEach (f : RosterPublisher → U32 → List RosterSend × RosterPublisher) (r : RosterPublisher)
    (connected : List U32) : List RosterSend × RosterPublisher :=
  connected.foldl (fun acc peerId =>
    let (sends, r) := f acc.2 peerId
    (acc.1 ++ sends, r)) ([], r)

def refresh (r : RosterPublisher) (self : RosterPeer) (now : Millis) (connected : List U32) :
    List RosterSend × RosterPublisher :=
  let content := build self r.peers connected
  let changed := r.forcedChange || r.last ≠ some content
  let r :=
    { r with
      schedules := r.schedules.filter (fun sch => sch.peerId ∈ connected)
      forcedChange := false
      last := some content
      generation := if changed then r.generation + 1 else r.generation }
  forEach (refreshOne changed now) r connected

def run (r : RosterPublisher) (now : Millis) (connected : List U32) :
    List RosterSend × RosterPublisher :=
  match r.self with
  | none => ([], r)
  | some self =>
    let (first, r) :=
      if r.dirty then refresh { r with dirty := false } self now connected else ([], r)
    let (second, r) := forEach (runOne now) r connected
    (first ++ second, r)

def earliest (r : RosterPublisher) : Option Millis :=
  if r.self.isNone then none
  else if r.dirty then some 0
  else (r.schedules.flatMap (fun sch => [sch.periodDue, sch.resendDue])).foldl earlier none

end RosterPublisher

end Sangtachi.Tunnel
