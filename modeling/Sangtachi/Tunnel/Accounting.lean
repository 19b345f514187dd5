import Sangtachi.Peer.DropCounters
import Sangtachi.Tunnel.Retirement

/-! # Every datagram is accounted for

A datagram that reaches the tunnel is taken by a session, or raises one drop counter: that of the
process, or that of the session it was meant for. DATA that no sink takes is the exception. Its
source may have become a probed path before, and that can raise a second counter. -/
namespace Sangtachi.Tunnel

open Sangtachi.BigEndian Sangtachi.Packet Sangtachi.Peer

variable {io : SessionId → SessionIo} {T T' : Tunnel} {e : Entry} {now : Millis}
  {k : U32} {c : Counter}
  {place : Option U32} {cs : List Counter} {source : Endpoint} {datagram : List U8}

def counterAt (T : Tunnel) : Option U32 → Counter → ℕ
  | none, d => T.counters d
  | some k, d => (T.find k).elim 0 (·.session.counters d)

/-- The drop counters went up by `cs`, all in one place. -/
def RaisedAt (T T' : Tunnel) (place : Option U32) (cs : List Counter) : Prop :=
  ∀ q d, d.isDrop = true → T'.counterAt q d = T.counterAt q d + if q = place then cs.count d else 0

def accepts (io : SessionId → SessionIo) (T : Tunnel) (source : Endpoint) (datagram : List U8)
    (now : Millis) : Bool :=
  match checkCommon datagram with
  | .error _ => false
  | .ok (header, payload) =>
    match T.find header.peerId with
    | none => false
    | some e => !T.retired.contains header.sessionEpoch now && e.session.active &&
        (receive e.cfg (io e.id) { e.session with out := [] }
          ⟨header, payload, source⟩ now).1.isNone

inductive Accounted (io : SessionId → SessionIo) (T : Tunnel) (source : Endpoint)
    (datagram : List U8) (now : Millis) (T' : Tunnel) :
    Prop where
  | accepted : T.accepts io source datagram now = true → Accounted io T source datagram now T'
  | dropped (place : Option U32) (c : Counter) : c.isDrop = true → RaisedAt T T' place [c] →
      Accounted io T source datagram now T'
  | unsunk (header : Header) (payload : List U8) (e : Entry) (cs : List Counter) :
      checkCommon datagram = .ok (header, payload) → T.find header.peerId = some e →
      isVerified e.cfg e.session source = false →
      (e.session.window.check header.sequence).advanced = true →
      ProbeCost cs → RaisedAt T T' (some header.peerId) (cs ++ [.dropNoSink]) →
      Accounted io T source datagram now T'

/-! ## Counters of one place -/

theorem find_mapped {g : Entry → Entry} (hcfg : ∀ x, (g x).cfg = x.cfg)
    (h : T'.sessions = T.sessions.map g) (q : U32) :
    T'.find q = (T.find q).map g := by
  unfold find
  rw [h, List.find?_map]
  simp only [Function.comp_def, hcfg]

theorem count_raisedAt (T : Tunnel) (c : Counter) : RaisedAt T (T.count c) none [c] := by
  intro q d _
  cases q with
  | some k => exact (Nat.add_zero _).symm
  | none =>
    rw [if_pos rfl]
    change Function.update T.counters c (T.counters c + 1) d = T.counters d + [c].count d
    by_cases hd : d = c
    · subst hd
      rw [Function.update_self, List.count_singleton_self]
    · rw [Function.update_of_ne hd, List.count_singleton]
      simp [Ne.symm hd]

theorem mapped_raisedAt {g : Entry → Entry} (hcfg : ∀ x, (g x).cfg = x.cfg)
    (hfind : T.find k = some e) (hcounters : T'.counters = T.counters)
    (hsessions : T'.sessions = T.sessions.map g)
    (hraised : RaisedBy e.session (g e).session cs) (hother : ∀ x, x.cfg.peerId ≠ k → g x = x) :
    RaisedAt T T' (some k) cs := by
  intro q d hd
  cases q with
  | none => exact congrFun hcounters d
  | some q =>
    simp only [counterAt, find_mapped hcfg hsessions q]
    by_cases hq : q = k
    · subst hq
      rw [hfind, if_pos rfl]
      exact hraised d hd
    · rw [if_neg (fun h => hq (Option.some.inj h))]
      cases hfound : T.find q with
      | none => rfl
      | some x =>
        obtain ⟨-, hx⟩ := find_some hfound
        rw [Option.map_some, hother x (fun h => hq (hx.symm.trans h))]
        rfl

theorem countFor_raisedAt (hfind : T.find k = some e) (c : Counter) :
    RaisedAt T (T.countFor k c) (some k) [c] := by
  obtain ⟨-, hkey⟩ := find_some hfind
  refine mapped_raisedAt (countFor_same c).cfg hfind rfl rfl ?_ (fun x hx => if_neg hx)
  rw [if_pos hkey]
  exact count_raised e.session c

theorem called_raisedAt {op : Op} {s' : Session} (hfind : T.find k = some e)
    (hc : Called io T e op now s' T') (hraised : RaisedBy e.session s' cs) :
    RaisedAt T T' (some k) cs := by
  obtain ⟨-, rfl⟩ := find_some hfind
  refine mapped_raisedAt (swap_cfg s') hfind hc.counters hc.sessions ?_ (fun x hx => if_neg hx)
  unfold swap
  rw [if_pos rfl]
  exact hraised

/-! ## A packet that a session drops -/

theorem capped_few (h : T.terminalCount ≤ maxPeers - 1) : T.capped = T := by
  unfold capped
  cases T.sessions.length with
  | zero => rfl
  | succ fuel =>
    unfold enforceRetentionCap
    exact if_pos h

theorem Called.terminalCount {op : Op} {s' : Session} (hi : Invariant T) (he : e ∈ T.sessions)
    (hc : Called io T e op now s' T') (hactive : s'.active = e.session.active) :
    T'.terminalCount = T.terminalCount := by
  unfold Tunnel.terminalCount
  rw [hc.sessions, List.countP_map]
  apply List.countP_congr
  intro x hx
  unfold swap
  by_cases hkey : x.cfg.peerId = e.cfg.peerId
  · obtain rfl := hi.same_key hx he hkey
    simp only [Function.comp_apply, if_pos, hactive]
  · simp only [Function.comp_apply, if_neg hkey]

theorem received_accounted {header : Header} {payload : List U8} (hi : Invariant T)
    (hcount : T.terminalCount ≤ maxPeers - 1)
    (hcheck : checkCommon datagram = .ok (header, payload)) (hfind : T.find header.peerId = some e)
    (hretired : T.retired.contains header.sessionEpoch now = false)
    (hactive : e.session.active = true) :
    Accounted io T source datagram now
      (T.call io header.peerId (.receive ⟨header, payload, source⟩) now).capped := by
  have hcalled := call_called io (.receive ⟨header, payload, source⟩) now hfind
  have hstep : step e.cfg (io e.id) e.session (.receive ⟨header, payload, source⟩) now =
      (receive e.cfg (io e.id) { e.session with out := [] } ⟨header, payload, source⟩ now).2 := rfl
  rw [hstep] at hcalled
  cases hresult :
    (receive e.cfg (io e.id) { e.session with out := [] } ⟨header, payload, source⟩ now).1 with
  | none =>
    refine .accepted ?_
    unfold accepts
    simp only [hcheck, hfind, hretired, hactive, hresult]
    rfl
  | some c =>
    obtain ⟨hstays, hraised⟩ := receive_raises hresult
    have hfew := hcalled.terminalCount hi (find_some hfind).1 hstays
    rw [capped_few (hfew ▸ hcount)]
    rcases hraised with hone | ⟨cs, rfl, hcs, hcost, hunverified, hadvanced⟩
    · exact .dropped _ c (receive_isDrop hresult) (called_raisedAt hfind hcalled hone)
    · exact .unsunk header payload e cs hcheck hfind hunverified hadvanced hcost
        (called_raisedAt hfind hcalled hcs)

theorem onDatagram_accounted (hi : Invariant T) (hcount : T.terminalCount ≤ maxPeers - 1)
    (source : Endpoint) (datagram : List U8) (now : Millis) :
    Accounted io T source datagram now (T.onDatagram io source datagram now) := by
  have hcases := onDatagram_cases io T source datagram now
  generalize T.onDatagram io source datagram now = T' at hcases ⊢
  cases hcases with
  | malformed err hcheck => exact .dropped none _ (toCounter_isDrop err) (count_raisedAt T _)
  | unknown header payload hcheck hfind => exact .dropped none _ rfl (count_raisedAt T _)
  | retired header payload e hcheck hfind hretired =>
    exact .dropped _ _ rfl (countFor_raisedAt hfind _)
  | ended header payload e hcheck hfind hretired hended =>
    exact .dropped _ _ rfl (countFor_raisedAt hfind _)
  | received header payload e hcheck hfind hretired hactive =>
    exact received_accounted hi hcount hcheck hfind hretired hactive

/-- A dropped packet leaves the session as it was, but for its counter, what had expired and the
record of its number. A renegotiation is never dropped. Every datagram of every run is accounted
for. -/
theorem dropped_packets_are_accounted :
    (∀ (C : SessionConfig) (E : SessionIo) (s : Session) (p : RxPacket) (now : Millis)
      (c : Counter),
      (receive C E s p now).1 = some c → c ≠ .dropNoSink →
      LeftAsWas C E s p now c (receive C E s p now).2) ∧
    (∀ (C : SessionConfig) (E : SessionIo) (s u : Session) (p : RxPacket) (now : Millis)
      (h : HelloPayload),
      s.active = true → checkEpoch C E s p now = (u, .ok (.hello h true)) →
      (receive C E s p now).1 = none) ∧
    ∀ (io : SessionId → SessionIo) (h : List Turn) (t : Millis) (T : Tunnel), Run io h t T →
      ∀ (source : Endpoint) (datagram : List U8) (now : Millis), t ≤ now →
        Accounted io T source datagram now (T.perform io (.onDatagram source datagram) now) := by
  refine ⟨fun C E s p now c => receive_dropped, fun C E s u p now h => renegotiation_accepted, ?_⟩
  intro io h t T hr source datagram now _
  have hi : Invariant { T with out := [] } := (run_invariant hr).cleared
  have hcount : Tunnel.terminalCount { T with out := [] } ≤ maxPeers - 1 :=
    run_terminalCount (T := T) hr
  have hall : Accounted io _ source datagram now _ :=
    onDatagram_accounted hi hcount source datagram now
  cases hall with
  | accepted h => exact .accepted h
  | dropped place c hc hraised => exact .dropped place c hc hraised
  | unsunk header payload e cs hcheck hfind hunverified hadvanced hcost hraised =>
    exact .unsunk header payload e cs hcheck hfind hunverified hadvanced hcost hraised

/-- A packet of the peer under the epoch 9. -/
def peerPacket (type : PacketType) (seq : U32) (payload : List U8) : List U8 :=
  serializeHeader (headerOf type ⟨2, 9, seq⟩ payload) ++ payload

def unsunkIo : SessionId → SessionIo := fun _ => { roamIo with dataSink := false }

def strayPlace (port : U16) : Endpoint := ⟨0xC0A80009, port⟩

/-- An empty packet from the peer to this host, inside the tunnel. -/
def emptyInner : List U8 :=
  [0x45, 0, 0, 20, 0, 0, 0, 0, 64, 17, 0x66, 0x0F, 10, 100, 0, 2, 10, 100, 0, 1]

/-- The peer connects, and speaks from as many addresses as can be probed at a time. -/
def strayCalls : List (Action × Millis) :=
  [(.createSession (roomRequest 2 0x0A640002) [7] [nonceOf 1], 0),
   (.onDatagram roamHome (peerPacket .hello 0 (encodeHello ⟨nonceOf 5, 0x0A640002⟩)), 10),
   (.onDatagram roamHome (peerPacket .helloAck 1 (encodeHello ⟨nonceOf 1, 0x0A640002⟩)), 10),
   (.onDatagram (strayPlace 1) (peerPacket .keepalive 2 []), 20),
   (.onDatagram (strayPlace 2) (peerPacket .keepalive 3 []), 20),
   (.onDatagram (strayPlace 3) (peerPacket .keepalive 4 []), 20),
   (.onDatagram (strayPlace 4) (peerPacket .keepalive 5 []), 20)]

def strayRun : List Turn × Tunnel := play unsunkIo [] {} strayCalls

theorem stray_run : Run unsunkIo strayRun.1 20 strayRun.2 :=
  play_run strayCalls (.start 0) (by simp [InOrder, strayCalls])

def strayData : List U8 := peerPacket .data 6 emptyInner

def strayAfter : Tunnel := strayRun.2.perform unsunkIo (.onDatagram (strayPlace 5) strayData) 30

/-- A session that has heard a peer under the epoch 8. -/
def pinnedSession : Session := { create 0 with pinned := some 8, sentAck := true }

def newEpoch : RxPacket :=
  ⟨headerOf .hello ⟨2, 9, 0⟩ [], encodeHello ⟨nonceOf 5, 0x0A640002⟩, roamHome⟩

/-- The stray DATA is accounted for; a packet under another epoch is dropped, unless it is a HELLO.
-/
theorem stray_data_accounted :
    Accounted unsunkIo strayRun.2 (strayPlace 5) strayData 30 strayAfter ∧
    LeftAsWas roamConfig roamIo pinnedSession
      { newEpoch with header := headerOf .keepalive ⟨2, 9, 0⟩ [], payload := [] }
      30 .dropStaleEpoch (receive roamConfig roamIo pinnedSession
        { newEpoch with header := headerOf .keepalive ⟨2, 9, 0⟩ [], payload := [] } 30).2 ∧
    (receive roamConfig roamIo pinnedSession newEpoch 30).1 = none :=
  ⟨dropped_packets_are_accounted.2.2 unsunkIo _ _ _ stray_run
    (strayPlace 5) strayData 30 (by decide),
    dropped_packets_are_accounted.1 roamConfig roamIo pinnedSession _ 30 .dropStaleEpoch
      (by decide +kernel) (by decide),
    dropped_packets_are_accounted.2.1 roamConfig roamIo pinnedSession _ newEpoch 30
      ⟨nonceOf 5, 0x0A640002⟩
      (by decide +kernel) (Prod.ext rfl (by decide +kernel))⟩

/-- The table of probes is full, so the stray DATA raises two drop counters of its session. -/
theorem stray_data_counts_twice :
    ¬∀ (io : SessionId → SessionIo) (h : List Turn) (t : Millis) (T : Tunnel), Run io h t T →
      ∀ (source : Endpoint) (datagram : List U8) (now : Millis), t ≤ now →
        T.accepts io source datagram now = true ∨ ∃ place c, c.isDrop = true ∧
          RaisedAt T (T.perform io (.onDatagram source datagram) now) place [c] := by
  intro hall
  have hone := hall unsunkIo _ _ _ stray_run (strayPlace 5) strayData 30 (by decide)
  have hrefused : strayRun.2.accepts unsunkIo (strayPlace 5) strayData 30 = false := by
    decide +kernel
  have hsink : strayAfter.counterAt (some 2) .dropNoSink =
    strayRun.2.counterAt (some 2) .dropNoSink + 1 := by
    decide +kernel
  have hfull : strayAfter.counterAt (some 2) .dropProbeFull =
    strayRun.2.counterAt (some 2) .dropProbeFull + 1 := by
    decide +kernel
  rw [hrefused] at hone
  obtain hfalse | ⟨place, c, -, hraised⟩ := hone
  · cases hfalse
  · have hsink' := (hraised (some 2) .dropNoSink rfl).symm.trans hsink
    have hfull' := (hraised (some 2) .dropProbeFull rfl).symm.trans hfull
    rw [List.count_singleton] at hsink' hfull'
    by_cases hplace : some 2 = place
    · rw [if_pos hplace] at hsink' hfull'
      cases c <;> simp at hsink' hfull'
    · rw [if_neg hplace] at hsink'
      omega

end Sangtachi.Tunnel
