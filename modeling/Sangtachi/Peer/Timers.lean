import Sangtachi.Peer.Frames

/-! # Timers, flags and terminal states

A live session has exactly the timers of its state; an ended one has none, keeps no probe and
stays ended. Every public operation keeps this, and it says how a session can end. -/
namespace Sangtachi.Peer

open Sangtachi.BigEndian Sangtachi.Packet Sangtachi.Replay Sangtachi.InnerIpv4

variable {C : SessionConfig} {E : SessionIo} {s s' : Session} {T : Millis}

def TimersFor (s : Session) : SessionState → Prop
  | .connected =>
    s.hello.due = none ∧ s.punch.due = none ∧
      s.keepalive.due.isSome ∧ s.ping.due.isSome ∧ s.idle.due.isSome
  | .punching | .handshaking =>
    s.hello.due.isSome = s.punchStarted ∧ s.punch.due.isSome = s.punchStarted ∧
      s.keepalive.due = none ∧ s.ping.due = none ∧ s.idle.due = none
  | .failed | .closed =>
    s.hello.due = none ∧ s.punch.due = none ∧
      s.keepalive.due = none ∧ s.ping.due = none ∧ s.idle.due = none

structure Live (s : Session) : Prop where
  terminal : s.terminal = none
  failure : s.failure = none
  timers : TimersFor s s.state

structure Ended (s : Session) (st : SessionState) : Prop where
  terminal : s.terminal = some st
  isTerminal : st = .failed ∨ st = .closed
  timers : TimersFor s st
  probes : s.probes = []
  failure : s.failure.isSome = true ↔ st = .failed

/-- The destination and payload of each CLOSE among the calls of an operation. -/
def closeCalls (out : List Event) : List (Endpoint × List U8) :=
  (closesOf out).map (fun d => (d.dest, d.payload))

/-- No CLOSE more than before, and the punch neither started nor forgotten. -/
structure Steady (s s' : Session) : Prop where
  closes : closesOf s'.out = closesOf s.out
  punch_started : s'.punchStarted = s.punchStarted

theorem Steady.refl (s : Session) : Steady s s := ⟨rfl, rfl⟩

theorem Steady.trans {t : Session} (h : Steady s s') (k : Steady s' t) : Steady s t :=
  ⟨k.closes.trans h.closes, k.punch_started.trans h.punch_started⟩

theorem SameControl.steady (h : SameControl s s') : Steady s s' := ⟨h.closes, h.punch_started⟩

/-! ## The state read from the flags -/

theorem state_of_terminal {st : SessionState} (h : s.terminal = some st) : s.state = st := by
  simp [Session.state, h]

theorem state_connected_iff (h : s.terminal = none) :
    s.state = .connected ↔ s.gotAck = true ∧ s.sentAck = true := by
  simp only [Session.state, h]
  split_ifs <;> simp_all

theorem state_of_live (h : s.terminal = none) :
    s.state = .punching ∨ s.state = .handshaking ∨ s.state = .connected := by
  simp only [Session.state, h]
  split_ifs <;> simp

theorem active_of_live (h : s.terminal = none) : s.active = true := by
  rcases state_of_live h with hs | hs | hs <;> simp [Session.active, isTerminal, hs]

theorem not_active_of_ended {st : SessionState} (h : Ended s st) : s.active = false := by
  rcases h.isTerminal with rfl | rfl <;>
    simp [Session.active, isTerminal, state_of_terminal h.terminal]

theorem state_congr (ht : s'.terminal = s.terminal) (hg : s'.gotAck = s.gotAck)
    (hs : s'.sentAck = s.sentAck) : s'.state = s.state := by
  simp only [Session.state, ht, hg, hs]

theorem SameControl.state (h : SameControl s s') : s'.state = s.state :=
  state_congr h.terminal h.got_ack h.sent_ack

theorem SameControl.timers (h : SameControl s s') {st : SessionState} (ht : TimersFor s st) :
    TimersFor s' st := by
  cases st <;>
    simpa only [TimersFor, h.hello, h.punch, h.keepalive, h.ping, h.idle, h.punch_started] using ht

theorem SameControl.live (h : SameControl s s') (hl : Live s) : Live s' where
  terminal := h.terminal.trans hl.terminal
  failure := h.failure.trans hl.failure
  timers := by
    rw [h.state]
    exact h.timers hl.timers

/-- `CONNECTED` is never left by flags that only grow. -/
theorem connected_of_grown {got sent : Bool} (hg : s.gotAck = true → got = true)
    (hs : s.sentAck = true → sent = true)
    (h : SameControl { s with gotAck := got, sentAck := sent } s') (ht : s.terminal = none)
    (hc : s.state = .connected) : s'.state = .connected := by
  rw [state_connected_iff ht] at hc
  rw [state_connected_iff (h.terminal.trans ht), h.got_ack, h.sent_ack]
  exact ⟨hg hc.1, hs hc.2⟩

theorem timers_of_not_connected {st : SessionState} (h : TimersFor s st)
    (hs : st = .punching ∨ st = .handshaking) : TimersFor s .punching := by
  rcases hs with rfl | rfl <;> exact h

theorem not_connected_of_live (ht : s.terminal = none) (h : s.state ≠ .connected) :
    s.state = .punching ∨ s.state = .handshaking := by
  rcases state_of_live ht with hs | hs | hs
  · exact .inl hs
  · exact .inr hs
  · exact absurd hs h

/-! ## Settling and ending -/

theorem enterConnected_live (ht : s.terminal = none) (hf : s.failure = none)
    (hc : s.state = .connected) :
    Live (enterConnected C E s T) ∧ (enterConnected C E s T).state = .connected ∧
      Steady s (enterConnected C E s T) := by
  unfold enterConnected sendKeepalive
  dsimp only
  generalize hu : ({ s with
    hello := { s.hello with due := none }
    punch := { s.punch with due := none }
    lossBaseline := some s.window.position
    lossAccepted := 0
    idle := arm T idleTimeoutMs
    ping := arm T pingIntervalMs } : Session) = u
  have hsend := sendToPeer_same (C := C) (E := E) (s := u)
    (show PacketType.keepalive ≠ .close by decide) []
  have hstate : ({ sendToPeer C E u .keepalive [] with
      keepalive := arm T keepaliveIntervalMs } : Session).state = .connected := by
    refine (state_congr (s := s) ?_ ?_ ?_).trans hc
    · exact hsend.terminal.trans (by rw [← hu])
    · exact hsend.got_ack.trans (by rw [← hu])
    · exact hsend.sent_ack.trans (by rw [← hu])
  refine ⟨⟨?_, ?_, ?_⟩, hstate, ?_⟩
  · exact hsend.terminal.trans (by rw [← hu]; exact ht)
  · exact hsend.failure.trans (by rw [← hu]; exact hf)
  · rw [hstate]
    refine ⟨?_, ?_, rfl, ?_, ?_⟩
    · exact (congrArg Timer.due hsend.hello).trans (by rw [← hu])
    · exact (congrArg Timer.due hsend.punch).trans (by rw [← hu])
    · exact (congrArg (·.due.isSome) hsend.ping).trans (by rw [← hu])
    · exact (congrArg (·.due.isSome) hsend.idle).trans (by rw [← hu])
  · exact ⟨hsend.closes.trans (by rw [← hu]), hsend.punch_started.trans (by rw [← hu])⟩

theorem settle_live (before : SessionState) (ht : s.terminal = none) (hf : s.failure = none)
    (hsame : s.state = before → TimersFor s before)
    (hpunch : s.state ≠ .connected → TimersFor s .punching) :
    Live (settle C E s before T) ∧
      Steady s (settle C E s before T) := by
  unfold settle notify
  dsimp only
  split_ifs with heq hc
  · exact ⟨⟨ht, hf, by rw [heq]; exact hsame heq⟩, .refl s⟩
  · obtain ⟨hl, -, hcl⟩ := enterConnected_live (C := C) (E := E) (T := T) ht hf hc
    have he := emit_same (s := enterConnected C E s T) (e := .transition before s.state) rfl
    exact ⟨he.live hl, hcl.trans he.steady⟩
  · have he := emit_same (s := s) (e := .transition before s.state) rfl
    refine ⟨he.live ⟨ht, hf, ?_⟩, he.steady⟩
    rcases not_connected_of_live ht hc with hs | hs <;> rw [hs] <;> exact hpunch hc

theorem enterTerminal_ended (st : SessionState) (hst : st = .failed ∨ st = .closed)
    (hf : s.failure.isSome = true ↔ st = .failed) :
    Ended (enterTerminal s st T) st ∧
      Steady s (enterTerminal s st T) := by
  refine ⟨⟨rfl, hst, ?_, rfl, hf⟩, by simp [enterTerminal, notify, Session.emit, stopTimers], rfl⟩
  rcases hst with rfl | rfl <;> exact ⟨rfl, rfl, rfl, rfl, rfl⟩

theorem sendClose_calls (hout : closesOf s.out = []) (reason : CloseReason) :
    closeCalls (sendClose C E s reason).out =
        s.peerEndpoint.toList.map (fun e => (e, encodeClose reason)) ∧
      (sendClose C E s reason).failure = s.failure := by
  unfold sendClose
  split
  · next heq => simp [closeCalls, hout, heq]
  · next e heq =>
    obtain ⟨counters, calls, hs, hcalls⟩ :=
      sendPacket_spec (C := C) (E := E) s .close (encodeClose reason) e
    rw [hs]
    rcases hcalls with ⟨-, -, hlen⟩ | ⟨bytes, -, rfl, -⟩
    · simp [payloadLengthOk, encodeClose, closePayloadSize] at hlen
    · have hone : closesOf [.sent (nextSent C E s .close (encodeClose reason) bytes e)] =
          [nextSent C E s .close (encodeClose reason) bytes e] := by simp [closesOf, nextSent]
      refine ⟨?_, rfl⟩
      simp only [closeCalls, closesOf_append, hout, hone, heq]
      rfl

theorem fail_ended (hout : closesOf s.out = []) (failure : SessionFailure) :
    Ended (fail C E s failure T) .failed ∧
      (fail C E s failure T).failure = some failure ∧
      closeCalls (fail C E s failure T).out =
        s.peerEndpoint.toList.map (fun e => (e, encodeClose .setupFailed)) := by
  obtain ⟨hcalls, -⟩ := sendClose_calls (C := C) (E := E) (s := stopTimers s) hout .setupFailed
  obtain ⟨hend, hcl⟩ := enterTerminal_ended (T := T)
    (s := ({ sendClose C E (stopTimers s) .setupFailed with failure := some failure } :
      Session).emit (.line (.failed failure))) .failed (.inl rfl) (by simp [Session.emit])
  refine ⟨hend, rfl, ?_⟩
  rw [fail, closeCalls, hcl.closes]
  simp only [Session.emit, closesOf_append, closesOf_line, List.append_nil]
  exact hcalls

/-! ## Polling -/

theorem due_none (t : Timer) : t.due = none ↔ t.due.isSome = false := by
  cases t.due <;> simp

theorem TimersFor.congr {st : SessionState} (h : TimersFor s st)
    (hstarted : s'.punchStarted = s.punchStarted)
    (hhello : s'.hello.due.isSome = s.hello.due.isSome)
    (hpunch : s'.punch.due.isSome = s.punch.due.isSome)
    (hkeepalive : s'.keepalive.due.isSome = s.keepalive.due.isSome)
    (hping : s'.ping.due.isSome = s.ping.due.isSome)
    (hidle : s'.idle.due.isSome = s.idle.due.isSome) : TimersFor s' st := by
  cases st <;> simp only [TimersFor, due_none] at h ⊢ <;>
    simpa only [hstarted, hhello, hpunch, hkeepalive, hping, hidle] using h

theorem due_isSome {t : Timer} (h : t.isDue T = true) : t.due.isSome = true := by
  unfold Timer.isDue at h
  cases hd : t.due <;> simp_all

theorem punch_due_state (hl : Live s) (h : s.punch.isDue T = true) :
    s.state = .punching ∨ s.state = .handshaking := by
  refine not_connected_of_live hl.terminal ?_
  intro hc
  have ht := hl.timers
  rw [hc] at ht
  have hd := due_isSome h
  rw [ht.2.1] at hd
  cases hd

theorem idle_due_state (hl : Live s) (h : s.idle.isDue T = true) : s.state = .connected := by
  by_contra hc
  have ht := timers_of_not_connected hl.timers (not_connected_of_live hl.terminal hc)
  have hd := due_isSome h
  rw [ht.2.2.2.2] at hd
  cases hd

/-- A poll that ends the session: which deadline was due, in which state, and what is said. -/
structure FailedBy (s : Session) (T : Millis) (s' : Session) : Prop where
  ended : Ended s' .failed
  closes : closeCalls s'.out = s.peerEndpoint.toList.map (fun e => (e, encodeClose .setupFailed))
  cause : (s.punch.isDue T = true ∧ s.state = .punching ∧
      s'.failure = some .holePunchTimeout) ∨
    (s.punch.isDue T = true ∧ s.state = .handshaking ∧
      s'.failure = some .peerHandshakeFailed) ∨
    (s.idle.isDue T = true ∧ s.state = .connected ∧ s'.failure = some .tunnelDropped)

theorem flags_of_punching (h : s.terminal = none) :
    s.state = .punching ↔ s.gotAck = false ∧ s.sentAck = false := by
  simp only [Session.state, h]
  cases s.gotAck <;> cases s.sentAck <;> simp

theorem tick_same (kind : TimerKind) (t : Timer) : SameControl s (emitTick s kind t T) :=
  emit_same rfl

theorem pollHello_live (hl : Live s) :
    Live (pollHello C E s T) ∧ Steady s (pollHello C E s T) := by
  unfold pollHello
  split_ifs with hdue
  · have h := (tick_same (s := s) (T := T) .hello s.hello).trans
      (sendHelloRound_same (C := C) (E := E))
    refine ⟨⟨h.terminal.trans hl.terminal, h.failure.trans hl.failure, ?_⟩, h.closes,
      h.punch_started⟩
    have ht := (h.live hl).timers
    exact ht.congr rfl (by rw [h.hello, due_isSome hdue]; rfl) rfl rfl rfl rfl
  · exact ⟨hl, .refl s⟩

theorem pollKeepalive_live (hl : Live s) :
    Live (pollKeepalive C E s T) ∧ Steady s (pollKeepalive C E s T) := by
  unfold pollKeepalive
  split_ifs with hdue
  · have h := (tick_same (s := s) (T := T) .keepalive s.keepalive).trans
      (sendToPeer_same (C := C) (E := E) (show PacketType.keepalive ≠ .close by decide) [])
    refine ⟨⟨h.terminal.trans hl.terminal, h.failure.trans hl.failure, ?_⟩, h.closes,
      h.punch_started⟩
    have ht := (h.live hl).timers
    exact ht.congr rfl rfl rfl (by rw [h.keepalive, due_isSome hdue]; rfl) rfl rfl
  · exact ⟨hl, .refl s⟩

theorem sendPing_same :
    SameControl { s with ping := arm T pingIntervalMs } (sendPing C E s T) := by
  have hexpire := expirePings_same (s := { s with ping := arm T pingIntervalMs }) (T := T)
  unfold sendPing
  dsimp only
  split
  · exact hexpire
  · refine hexpire.trans ?_
    generalize expirePings { s with ping := arm T pingIntervalMs } T = u
    have hread := readRttClock_same (E := E) (s := { u with nextPingId := u.nextPingId + 1 })
    have hnext : SameControl u { u with nextPingId := u.nextPingId + 1 } := by
      constructor <;> rfl
    refine (hnext.trans hread).trans ?_
    refine SameControl.trans ?_ (sendToPeer_same (by decide) _)
    constructor <;> rfl

theorem pollPing_live (hl : Live s) :
    Live (pollPing C E s T) ∧ Steady s (pollPing C E s T) := by
  unfold pollPing
  split_ifs with hdue
  · have h := sendPing_same (C := C) (E := E) (s := emitTick s .ping s.ping T) (T := T)
    have htick := tick_same (s := s) (T := T) .ping s.ping
    have hl' := htick.live hl
    refine ⟨h.live ⟨hl'.terminal, hl'.failure, ?_⟩, 
      htick.steady.trans ⟨h.closes, h.punch_started⟩⟩
    exact hl'.timers.congr rfl rfl rfl rfl (by rw [htick.ping, due_isSome hdue]; rfl) rfl
  · exact ⟨hl, .refl s⟩

theorem poll_live (hl : Live s) (hout : closesOf s.out = []) :
    (Live (poll C E s T) ∧ Steady s (poll C E s T)) ∨
      FailedBy s T (poll C E s T) := by
  have hact := active_of_live hl.terminal
  have hexp := expireProbes_same (s := s) (T := T)
  have hl' := hexp.live hl
  have hstate : (expireProbes s T).state = s.state := hexp.state
  unfold poll
  rw [hact]
  simp only [Bool.not_true, Bool.false_eq_true, if_false]
  by_cases hp : (expireProbes s T).punch.isDue T
  · right
    rw [if_pos hp]
    obtain ⟨hend, hfail, hcl⟩ := fail_ended (C := C) (E := E) (T := T)
      (s := emitTick (expireProbes s T) .punch (expireProbes s T).punch T)
      (by simpa [emitTick, Session.emit, expireProbes] using hout)
      (if (expireProbes s T).gotAck = true ∨ (expireProbes s T).sentAck = true then
        SessionFailure.peerHandshakeFailed else .holePunchTimeout)
    refine ⟨hend, hcl, ?_⟩
    rcases punch_due_state hl hp with hs | hs
    · obtain ⟨hg, ha⟩ := (flags_of_punching hl.terminal).mp hs
      refine .inl ⟨hp, hs, hfail.trans ?_⟩
      simp [expireProbes, hg, ha]
    · refine .inr (.inl ⟨hp, hs, hfail.trans ?_⟩)
      have hnot := (flags_of_punching hl.terminal).not.mp (by rw [hs]; decide)
      have hflag : (expireProbes s T).gotAck = true ∨ (expireProbes s T).sentAck = true := by
        simp only [expireProbes]
        grind
      rw [if_pos hflag]
  rw [if_neg hp]
  by_cases hi : (expireProbes s T).idle.isDue T
  · right
    rw [if_pos hi]
    obtain ⟨hend, hfail, hcl⟩ := fail_ended (C := C) (E := E) (T := T)
      (s := emitTick (expireProbes s T) .idle (expireProbes s T).idle T)
      (by simpa [emitTick, Session.emit, expireProbes] using hout) .tunnelDropped
    exact ⟨hend, hcl, .inr (.inr ⟨hi, idle_due_state hl hi, hfail⟩)⟩
  rw [if_neg hi]
  left
  obtain ⟨h₁, o₁⟩ := pollHello_live (C := C) (E := E) (T := T) hl'
  obtain ⟨h₂, o₂⟩ := pollKeepalive_live (C := C) (E := E) (T := T) h₁
  obtain ⟨h₃, o₃⟩ := pollPing_live (C := C) (E := E) (T := T) h₂
  exact ⟨h₃, hexp.steady.trans (o₁.trans (o₂.trans o₃))⟩

/-! ## Receiving -/

theorem resetForEpoch_same (epoch : U32) :
    SameControl { s with
      gotAck := false, sentAck := false, renegotiations :=
        s.renegotiations + 1, lastRenegotiation := some T }
      (resetForEpoch s epoch T) := by
  constructor
  case closes => cases hp : s.pinned <;> simp [resetForEpoch, hp]
  all_goals rfl

theorem restartPunch_same :
    ∃ hello punch,
      SameControl { s with hello := hello, punch := punch } (restartPunch C E s T) ∧
      (if s.punchStarted then hello = arm T helloRetransmitMs ∧ punch = arm T punchDeadlineMs
        else hello = s.hello ∧ punch = s.punch) := by
  unfold restartPunch
  split_ifs with hstarted
  · have hsend := sendHelloRound_same (C := C) (E := E)
      (s := { s with punch := arm T punchDeadlineMs })
    exact ⟨arm T helloRetransmitMs, arm T punchDeadlineMs, { hsend with hello := rfl },
      rfl, rfl⟩
  · exact ⟨s.hello, s.punch, .refl s, rfl, rfl⟩

/-- Whatever a live session had set, after the restart the timers are those of `PUNCHING`. -/
theorem restartPunch_timers {st : SessionState} (h : TimersFor s st)
    (hst : st = .punching ∨ st = .handshaking ∨ st = .connected) :
    TimersFor (restartPunch C E (stopTraffic s) T) .punching := by
  obtain ⟨hello, punch, hsame, hset⟩ := restartPunch_same (C := C) (E := E) (T := T)
    (s := stopTraffic s)
  refine hsame.timers ?_
  change if s.punchStarted = true then _ else _ at hset
  by_cases hstarted : s.punchStarted = true
  · rw [if_pos hstarted] at hset
    obtain ⟨rfl, rfl⟩ := hset
    exact ⟨hstarted.symm, hstarted.symm, rfl, rfl, rfl⟩
  · rw [if_neg hstarted] at hset
    obtain ⟨rfl, rfl⟩ := hset
    have hnot : s.punchStarted = false := by simpa using hstarted
    have hnone : s.hello.due = none ∧ s.punch.due = none := by
      rcases hst with rfl | rfl | rfl
      · exact ⟨(due_none _).mpr (h.1.trans hnot), (due_none _).mpr (h.2.1.trans hnot)⟩
      · exact ⟨(due_none _).mpr (h.1.trans hnot), (due_none _).mpr (h.2.1.trans hnot)⟩
      · exact ⟨h.1, h.2.1⟩
    refine ⟨?_, ?_, rfl, rfl, rfl⟩
    · exact ((due_none _).mp hnone.1).trans hnot.symm
    · exact ((due_none _).mp hnone.2).trans hnot.symm

theorem renegotiate_live (hl : Live s) (p : RxPacket) (nonce : Nonce) :
    Live (renegotiate C E s p nonce T) ∧
      Steady s (renegotiate C E s p nonce T) := by
  have hreset := resetForEpoch_same (s := s) (T := T) p.header.sessionEpoch
  obtain ⟨sent, -, hack⟩ := sendHelloAck_same (C := C) (E := E) (T := T)
    (s := resetForEpoch s p.header.sessionEpoch T) nonce p.source
  unfold renegotiate
  dsimp only
  generalize sendHelloAck C E (resetForEpoch s p.header.sessionEpoch T) nonce p.source T = u
    at hack ⊢
  have hterm : u.terminal = none := hack.terminal.trans (hreset.terminal.trans hl.terminal)
  have hfail : u.failure = none := hack.failure.trans (hreset.failure.trans hl.failure)
  have hgot : u.gotAck = false := hack.got_ack.trans hreset.got_ack
  have hsteady : Steady s u := ⟨hack.closes.trans hreset.closes,
    hack.punch_started.trans hreset.punch_started⟩
  have htimers : TimersFor u s.state := hack.timers (hreset.timers hl.timers)
  have hpunch := restartPunch_timers (C := C) (E := E) (T := T) htimers
    (state_of_live hl.terminal)
  obtain ⟨hello, punch, hsame, -⟩ := restartPunch_same (C := C) (E := E) (T := T)
    (s := stopTraffic u)
  generalize restartPunch C E (stopTraffic u) T = w at hpunch hsame ⊢
  have hwterm : w.terminal = none := hsame.terminal.trans hterm
  have hwstate : w.state ≠ .connected := by
    rw [Ne, state_connected_iff hwterm, hsame.got_ack]
    intro hc
    rw [show (stopTraffic u).gotAck = u.gotAck from rfl, hgot] at hc
    cases hc.1
  obtain ⟨hlive, hcl⟩ := settle_live (C := C) (E := E) (T := T) s.state
    hwterm (hsame.failure.trans hfail) (fun heq => by
      rcases not_connected_of_live hwterm hwstate with hs | hs <;> rw [← heq, hs] <;> exact hpunch)
    (fun _ => hpunch)
  exact ⟨hlive, (hsteady.trans ⟨hsame.closes, hsame.punch_started⟩).trans hcl⟩

theorem checkEpoch_live (hl : Live s) (p : RxPacket) :
    Live (checkEpoch C E s p T).1 ∧
      Steady s (checkEpoch C E s p T).1 := by
  have hexp := expireProbes_same (s := s) (T := T)
  unfold checkEpoch
  split
  · split
    · exact ⟨hl, .refl s⟩
    · unfold checkEpochHello
      split
      · exact ⟨hl, .refl s⟩
      · split_ifs
        · exact ⟨hl, .refl s⟩
        · exact ⟨hl, .refl s⟩
        · exact ⟨hl, .refl s⟩
        · exact renegotiate_live hl p _
  · split
    · exact ⟨hl, .refl s⟩
    · unfold checkEpochAck
      dsimp only
      split <;> split_ifs <;> exact ⟨hexp.live hl, hexp.steady⟩
  · split
    · exact ⟨hl, .refl s⟩
    · split_ifs <;> exact ⟨hl, .refl s⟩

theorem pin_same (epoch : U32) : SameControl s (pin s epoch) := by
  unfold pin
  split_ifs
  · constructor <;> rfl
  · exact .refl s

theorem renewIdle_live (hl : Live s) :
    Live (renewIdle s s.state T) ∧ (renewIdle s s.state T).state = s.state ∧
      Steady s (renewIdle s s.state T) := by
  unfold renewIdle
  split_ifs with hc
  · refine ⟨⟨hl.terminal, hl.failure, ?_⟩, rfl, rfl, rfl⟩
    have ht := hl.timers
    rw [hc] at ht
    change TimersFor _ s.state
    rw [hc]
    exact ⟨ht.1, ht.2.1, ht.2.2.1, ht.2.2.2.1, rfl⟩
  · exact ⟨hl, rfl, .refl s⟩

theorem raiseSource_same (source : Endpoint) (probeSource : Bool) :
    SameControl s (raiseSource C E s source probeSource T) := by
  unfold raiseSource
  split_ifs
  · exact startPathProbe_same source
  · exact .refl s

theorem settled_live (hl : Live s) (p : RxPacket) (pass : EpochPass) (body : Body)
    (probeSource : Bool) :
    Live (settle C E (raiseSource C E (act C E s p pass body s.state T) p.source
      probeSource T) s.state T) ∧
    Steady s (settle C E (raiseSource C E (act C E s p pass body s.state T) p.source
      probeSource T) s.state T) := by
  obtain ⟨got, sent, hgot, hsent, hact⟩ := act_same (C := C) (E := E) (s := s) (T := T)
    p pass body s.state
  have h := hact.trans (raiseSource_same (C := C) (E := E) (T := T) p.source probeSource)
  generalize raiseSource C E (act C E s p pass body s.state T) p.source probeSource T = u
    at h ⊢
  have htimers : TimersFor u s.state := h.timers hl.timers
  obtain ⟨hlive, hcl⟩ := settle_live (C := C) (E := E) (T := T) s.state
    (h.terminal.trans hl.terminal) (h.failure.trans hl.failure) (fun _ => htimers) (fun hne =>
      timers_of_not_connected htimers (not_connected_of_live hl.terminal fun hc =>
        hne (connected_of_grown hgot hsent h hl.terminal hc)))
  exact ⟨hlive, Steady.trans ⟨h.closes, h.punch_started⟩ hcl⟩

theorem dropWithoutSink_same {body : Body} : SameControl s (dropWithoutSink E s body).2 := by
  unfold dropWithoutSink
  split
  · exact count_same _
  · exact .refl s

theorem applyEffects_live (hl : Live s) (p : RxPacket) (pass : EpochPass) (d : ReplayDecision)
    (body : Body) :
    (Live (applyEffects C E s p pass d body T).2 ∨
        Ended (applyEffects C E s p pass d body T).2 .closed) ∧
      Steady s (applyEffects C E s p pass d body T).2 := by
  have hlearn := (pin_same (s := s) p.header.sessionEpoch).trans
    (learnSource_same (C := C) p pass d)
  unfold applyEffects
  dsimp only
  generalize learnSource C (pin s p.header.sessionEpoch) p pass d = r at hlearn ⊢
  obtain ⟨probeSource, u⟩ := r
  have hlu := hlearn.live hl
  have hstate : u.state = s.state := hlearn.state
  obtain ⟨hlv, hv, hvc⟩ := renewIdle_live (T := T) hlu
  rw [hstate] at hlv hv hvc
  generalize renewIdle u s.state T = v at hlv hv hvc ⊢
  have hsv : Steady s v := hlearn.steady.trans hvc
  have hsettled := settled_live (C := C) (E := E) (T := T) hlv p pass body probeSource
  rw [hv] at hsettled
  cases body with
  | close reason =>
    obtain ⟨hend, hcl⟩ := enterTerminal_ended (T := T)
      (s := { v with peerCloseReason := some reason }) .closed (.inr rfl) (by simp [hlv.failure])
    exact ⟨.inr hend, hsv.trans ⟨hcl.closes, hcl.punch_started⟩⟩
  | _ =>
    exact ⟨.inl (dropWithoutSink_same.live hsettled.1),
      hsv.trans (hsettled.2.trans dropWithoutSink_same.steady)⟩

theorem receive_live (hl : Live s) (p : RxPacket) :
    (Live (receive C E s p T).2 ∨ Ended (receive C E s p T).2 .closed) ∧
      Steady s (receive C E s p T).2 := by
  obtain ⟨hle, hce⟩ := checkEpoch_live (C := C) (E := E) (T := T) hl p
  unfold receive
  rw [active_of_live hl.terminal]
  simp only [Bool.not_true, Bool.false_eq_true, if_false]
  generalize checkEpoch C E s p T = r at hle hce ⊢
  obtain ⟨u, c | pass⟩ := r
  · have hcount := count_same (s := u) c
    exact ⟨.inl (hcount.live hle), hce.trans hcount.steady⟩
  have hrec := recordPacket_same (s := u) p.header.sequence
  have hlr := hrec.live hle
  have hor := hce.trans hrec.steady
  dsimp only [receivePassed]
  generalize recordPacket u p.header.sequence = r at hlr hor ⊢
  obtain ⟨d, v⟩ := r
  have htype := checkType_same (C := C) (s := v) (T := T) p
  dsimp only
  split
  · exact ⟨.inl ((count_same _).live hlr), hor.trans (count_same _).steady⟩
  · exact ⟨.inl ((count_same _).live hlr), hor.trans (count_same _).steady⟩
  · generalize checkType C v p T = r at htype ⊢
    obtain ⟨w, c | body⟩ := r
    · have h := htype.trans (count_same c)
      exact ⟨.inl (h.live hlr), hor.trans h.steady⟩
    have hlw := htype.live hlr
    have how := hor.trans htype.steady
    dsimp only
    split_ifs
    · dsimp only [afterRenegotiation]
      split_ifs
      · exact ⟨.inl hlw, how⟩
      · have h := startPathProbe_same (C := C) (E := E) (s := w) (T := T) p.source
        exact ⟨.inl (h.live hlw), how.trans h.steady⟩
    · obtain ⟨h, hs⟩ := applyEffects_live (C := C) (E := E) (T := T) hlw p pass d body
      exact ⟨h, how.trans hs⟩

/-! ## The other operations -/

theorem startPunch_live (hl : Live s) :
    Live (startPunch C E s T).2 ∧ closesOf (startPunch C E s T).2.out = closesOf s.out ∧
      (startPunch C E s T).2.punchStarted = true := by
  unfold startPunch
  rw [active_of_live hl.terminal]
  by_cases hstarted : s.punchStarted = true
  · rw [if_pos (.inr hstarted)]
    exact ⟨hl, rfl, hstarted⟩
  rw [if_neg (by simpa using hstarted)]
  have hstate : ({ s with punchStarted := true } : Session).state = s.state :=
    state_congr rfl rfl rfl
  dsimp only
  rw [hstate]
  split_ifs with hc
  · refine ⟨⟨hl.terminal, hl.failure, ?_⟩, rfl, rfl⟩
    rw [hstate, hc]
    have ht := hl.timers
    rw [hc] at ht
    exact ht
  · have h := sendHelloRound_same (C := C) (E := E) (s := { s with punchStarted := true })
    refine ⟨⟨h.terminal.trans hl.terminal, h.failure.trans hl.failure, ?_⟩, h.closes,
      h.punch_started⟩
    have ht := timers_of_not_connected hl.timers (not_connected_of_live hl.terminal hc)
    have hs : ({ sendHelloRound C E { s with punchStarted := true } with
        hello := arm T helloRetransmitMs, punch := arm T punchDeadlineMs } : Session).state =
        s.state := state_congr h.terminal h.got_ack h.sent_ack
    rw [hs]
    have hpunching : TimersFor ({ sendHelloRound C E { s with punchStarted := true } with
        hello := arm T helloRetransmitMs, punch := arm T punchDeadlineMs } : Session)
        .punching := by
      refine ⟨h.punch_started.symm, h.punch_started.symm, ?_, ?_, ?_⟩
      · exact (congrArg Timer.due h.keepalive).trans ht.2.2.1
      · exact (congrArg Timer.due h.ping).trans ht.2.2.2.1
      · exact (congrArg Timer.due h.idle).trans ht.2.2.2.2
    rcases not_connected_of_live hl.terminal hc with hp | hp <;> rw [hp] <;> exact hpunching

def userReason (s : Session) : CloseReason := if s.state = .connected then .normal else .userCancel

theorem closeByUser_ended (hl : Live s) (hout : closesOf s.out = []) :
    Ended (closeByUser C E s T) .closed ∧
      closeCalls (closeByUser C E s T).out =
        s.peerEndpoint.toList.map (fun e => (e, encodeClose (userReason s))) := by
  obtain ⟨hcalls, hfail⟩ := sendClose_calls (C := C) (E := E) (s := s) hout (userReason s)
  obtain ⟨hend, hcl⟩ := enterTerminal_ended (T := T)
    (s := sendClose C E s (userReason s)) .closed (.inr rfl) (by simp [hfail, hl.failure])
  unfold closeByUser
  rw [active_of_live hl.terminal]
  refine ⟨hend, ?_⟩
  rw [← hcalls, closeCalls, closeCalls, ← hcl.closes]
  rfl

/-! ## Ended sessions -/

theorem sendPacket_probes (type : PacketType) (payload : List U8) (dest : Endpoint) :
    (sendPacket C E s type payload dest).2.probes = s.probes := by
  obtain ⟨counters, calls, hs, -⟩ := sendPacket_spec (C := C) (E := E) s type payload dest
  rw [hs]

theorem sendEach_probes (type : PacketType) (payload : List U8) (dests : List Endpoint) :
    (sendEach C E s type payload dests).probes = s.probes := by
  induction dests generalizing s with
  | nil => rfl
  | cons e rest ih => exact ih.trans (sendPacket_probes type payload e)

theorem sendToPeer_probes (type : PacketType) (payload : List U8) :
    (sendToPeer C E s type payload).probes = s.probes := by
  unfold sendToPeer
  split
  · exact sendPacket_probes _ _ _
  · exact sendEach_probes _ _ _

theorem sendUntilFailure_probes (inner : List U8) (dests : List Endpoint) :
    (sendUntilFailure C E s inner dests).2.probes = s.probes := by
  induction dests generalizing s with
  | nil => rfl
  | cons e rest ih =>
    have hsend := sendPacket_probes (C := C) (E := E) (s := s) .data inner e
    unfold sendUntilFailure
    split
    · next heq => rwa [heq] at hsend
    · next heq =>
      rw [heq] at hsend
      exact ih.trans hsend

theorem sendData_probes (inner : List U8) : (sendData C E s inner).2.probes = s.probes := by
  unfold sendData
  split
  · exact sendPacket_probes _ _ _
  · exact sendUntilFailure_probes _ _

theorem SameControl.ended {st : SessionState} (h : SameControl s s') (hp : s'.probes = s.probes)
    (he : Ended s st) : Ended s' st where
  terminal := h.terminal.trans he.terminal
  isTerminal := he.isTerminal
  timers := h.timers he.timers
  probes := hp.trans he.probes
  failure := by rw [h.failure]; exact he.failure

/-- Sending DATA and ROSTER is the tunnel's business; every other call finds the session ended. -/
def Op.isTraffic : Op → Bool
  | .sendData _ => true
  | .sendRoster _ => true
  | _ => false

theorem step_ended {st : SessionState} (he : Ended s st) (op : Op) :
    Ended (step C E s op T) st ∧ (step C E s op T).failure = s.failure ∧
      closesOf (step C E s op T).out = [] ∧
      (op.isTraffic = false → sentOf (step C E s op T).out = []) := by
  have hclear : Ended ({ s with out := [] } : Session) st :=
    ⟨he.terminal, he.isTerminal, he.timers, he.probes, he.failure⟩
  have hnot := not_active_of_ended hclear
  cases op with
  | startPunch =>
    simp only [step, Op.apply, Peer.startPunch, hnot]
    exact ⟨hclear, rfl, rfl, fun _ => rfl⟩
  | poll =>
    simp only [step, Op.apply, Peer.poll, hnot]
    exact ⟨hclear, rfl, rfl, fun _ => rfl⟩
  | receive p =>
    simp only [step, Op.apply, Peer.receive, hnot]
    exact ⟨(count_same _).ended rfl hclear, rfl, rfl, fun _ => rfl⟩
  | closeByUser =>
    simp only [step, Op.apply, Peer.closeByUser, hnot]
    exact ⟨hclear, rfl, rfl, fun _ => rfl⟩
  | sendData inner =>
    have h := sendData_same (C := C) (E := E) (s := { s with out := [] }) inner
    exact ⟨h.ended (sendData_probes inner) hclear, h.failure, h.closes, fun hf => by cases hf⟩
  | sendRoster payload =>
    have h := sendToPeer_same (C := C) (E := E) (s := { s with out := [] })
      (show PacketType.roster ≠ .close by decide) payload
    exact ⟨h.ended (sendToPeer_probes _ _) hclear, h.failure, h.closes, fun hf => by cases hf⟩

/-! ## Runs -/

theorem step_live (hl : Live s) (op : Op) :
    (Live (step C E s op T) ∧ closesOf (step C E s op T).out = [] ∧
        ((step C E s op T).punchStarted = true ↔ s.punchStarted = true ∨ op = .startPunch)) ∨
      (op = .poll ∧ FailedBy s T (step C E s op T)) ∨
      (op = .closeByUser ∧ Ended (step C E s op T) .closed ∧
        closeCalls (step C E s op T).out =
          s.peerEndpoint.toList.map (fun e => (e, encodeClose (userReason s)))) ∨
      ((∃ p, op = .receive p) ∧ Ended (step C E s op T) .closed ∧
        closesOf (step C E s op T).out = []) := by
  have hclear : Live ({ s with out := [] } : Session) := ⟨hl.terminal, hl.failure, hl.timers⟩
  have steady : ∀ {s'}, Steady ({ s with out := [] } : Session) s' → op ≠ .startPunch →
      closesOf s'.out = [] ∧
        (s'.punchStarted = true ↔ s.punchStarted = true ∨ op = .startPunch) := by
    intro s' h hop
    exact ⟨h.closes, by rw [h.punch_started]; simp [hop]⟩
  cases op with
  | startPunch =>
    obtain ⟨h, hcl, hstarted⟩ := startPunch_live (C := C) (E := E) (T := T) hclear
    exact .inl ⟨h, hcl, by simp [step, Op.apply, hstarted]⟩
  | poll =>
    rcases poll_live (C := C) (E := E) (T := T) hclear rfl with ⟨h, hs⟩ | h
    · exact .inl ⟨h, steady hs (by decide)⟩
    · exact .inr (.inl ⟨rfl, h.ended, h.closes, h.cause⟩)
  | receive p =>
    obtain ⟨h | h, hs⟩ := receive_live (C := C) (E := E) (T := T) hclear p
    · exact .inl ⟨h, steady hs (by simp)⟩
    · exact .inr (.inr (.inr ⟨⟨p, rfl⟩, h, hs.closes⟩))
  | closeByUser =>
    obtain ⟨h, hcl⟩ := closeByUser_ended (C := C) (E := E) (T := T) hclear rfl
    exact .inr (.inr (.inl ⟨rfl, h, hcl⟩))
  | sendData inner =>
    have h := sendData_same (C := C) (E := E) (s := { s with out := [] }) inner
    exact .inl ⟨h.live hclear, steady h.steady (by simp)⟩
  | sendRoster payload =>
    have h := sendToPeer_same (C := C) (E := E) (s := { s with out := [] })
      (show PacketType.roster ≠ .close by decide) payload
    exact .inl ⟨h.live hclear, steady h.steady (by simp)⟩

def closesOfRun (h : List Entry) : List (Endpoint × List U8) :=
  h.flatMap (fun e => closeCalls e.after.out)

/-- The CLOSE a session owes when it ends itself: one where it knows the peer's address. -/
def owedClose (s : Session) (reason : CloseReason) : List (Endpoint × List U8) :=
  s.peerEndpoint.toList.map (fun e => (e, encodeClose reason))

/-- The failure code told at a deadline, from the state before the poll. -/
structure FailureCode (e : Entry) (code : Option SessionFailure) : Prop where
  given : code.isSome = true
  hole_punch : code = some .holePunchTimeout ↔
    e.before.punch.isDue e.now = true ∧ e.before.gotAck = false ∧ e.before.sentAck = false
  handshake : code = some .peerHandshakeFailed ↔
    e.before.punch.isDue e.now = true ∧ e.before.gotAck ≠ e.before.sentAck
  dropped : code = some .tunnelDropped →
    e.before.idle.isDue e.now = true ∧ e.before.state = .connected

/-- The call that ended the session, and what the whole run then shows. -/
inductive EndedIn (h : List Entry) (s : Session) : Prop where
  | failed (e : Entry) (mem : e ∈ h) (live : e.before.active = true) (op : e.op = .poll)
      (state : s.state = .failed) (code : FailureCode e s.failure)
      (closes : closesOfRun h = owedClose e.before .setupFailed)
  | byUser (e : Entry) (mem : e ∈ h) (live : e.before.active = true) (op : e.op = .closeByUser)
      (state : s.state = .closed) (code : s.failure = none)
      (closes : closesOfRun h = owedClose e.before (userReason e.before))
  | byPeer (e : Entry) (p : RxPacket) (mem : e ∈ h) (live : e.before.active = true)
      (op : e.op = .receive p) (state : s.state = .closed) (code : s.failure = none)
      (closes : closesOfRun h = [])

structure RunControl (h : List Entry) (s : Session) : Prop where
  live : s.terminal = none → Live s ∧ closesOfRun h = [] ∧
    (s.punchStarted = true ↔ ∃ e ∈ h, e.op = .startPunch)
  ended : ∀ st, s.terminal = some st → Ended s st ∧ EndedIn h s

theorem failureCode_of_failedBy {e : Entry} (hl : Live e.before)
    (h : FailedBy e.before e.now e.after) : FailureCode e e.after.failure := by
  have hflags := flags_of_punching hl.terminal
  have hboth := state_connected_iff hl.terminal
  rcases h.cause with ⟨hd, hs, hc⟩ | ⟨hd, hs, hc⟩ | ⟨hd, hs, hc⟩
  · obtain ⟨hg, ha⟩ := hflags.mp hs
    refine ⟨by simp [hc], by simp [hc, hd, hg, ha], by simp [hc, hg, ha], by simp [hc]⟩
  · rw [hs] at hflags hboth
    refine ⟨by simp [hc], ?_, ?_, by simp [hc]⟩
    · simp only [hc, Option.some.injEq, reduceCtorEq, false_iff]
      rintro ⟨-, hg, ha⟩
      exact absurd (hflags.mpr ⟨hg, ha⟩) (by decide)
    · simp only [hc, true_iff]
      refine ⟨hd, ?_⟩
      cases hg : e.before.gotAck <;> cases ha : e.before.sentAck <;> simp_all
  · have hnot : e.before.punch.isDue e.now = false := by
      by_contra hne
      rcases punch_due_state hl (by simpa using hne) with hp | hp <;> rw [hs] at hp <;> cases hp
    exact ⟨by simp [hc], by simp [hc, hnot], by simp [hc, hnot], fun _ => ⟨hd, hs⟩⟩

theorem closesOfRun_append (h : List Entry) (e : Entry) :
    closesOfRun (h ++ [e]) = closesOfRun h ++ closeCalls e.after.out := by
  simp [closesOfRun]

theorem closeCalls_nil {out : List Event} (h : closesOf out = []) : closeCalls out = [] := by
  simp [closeCalls, h]

theorem EndedIn.extend {h : List Entry} {e : Entry} (hend : EndedIn h s)
    (hout : closesOf e.after.out = []) (hstate : s'.state = s.state)
    (hfail : s'.failure = s.failure) : EndedIn (h ++ [e]) s' := by
  have hcl : closesOfRun (h ++ [e]) = closesOfRun h := by
    rw [closesOfRun_append, closeCalls_nil hout, List.append_nil]
  rcases hend with ⟨e₀, hm, hl, hop, hst, hc, hx⟩ | ⟨e₀, hm, hl, hop, hst, hc, hx⟩ |
    ⟨e₀, p, hm, hl, hop, hst, hc, hx⟩
  · exact .failed e₀ (by simp [hm]) hl hop (hstate.trans hst) (by rwa [hfail]) (hcl.trans hx)
  · exact .byUser e₀ (by simp [hm]) hl hop (hstate.trans hst) (hfail.trans hc) (hcl.trans hx)
  · exact .byPeer e₀ p (by simp [hm]) hl hop (hstate.trans hst) (hfail.trans hc) (hcl.trans hx)

theorem step_preserves_runControl {h : List Entry} (hr : RunControl h s) (op : Op) :
    RunControl (h ++ [⟨T, op, s, step C E s op T⟩]) (step C E s op T) := by
  rcases hterm : s.terminal with _ | st
  · obtain ⟨hl, hcl, hstarted⟩ := hr.live hterm
    have hact := active_of_live hl.terminal
    have hmem : (⟨T, op, s, step C E s op T⟩ : Entry) ∈
        h ++ [⟨T, op, s, step C E s op T⟩] := List.mem_append_right _ (List.mem_singleton.mpr rfl)
    have hcloses : ∀ {cs}, closeCalls (step C E s op T).out = cs →
        closesOfRun (h ++ [⟨T, op, s, step C E s op T⟩]) = cs := by
      intro cs hcs
      rw [closesOfRun_append, hcl, List.nil_append, hcs]
    rcases step_live (C := C) (E := E) (T := T) hl op with
      ⟨h', hc, hp⟩ | ⟨rfl, h'⟩ | ⟨rfl, h', hc⟩ | ⟨⟨p, rfl⟩, h', hc⟩
    · refine ⟨fun _ => ⟨h', hcloses (closeCalls_nil hc), ?_⟩, ?_⟩
      · rw [hp, hstarted]
        simp [or_and_right, exists_or]
      · intro st hst
        rw [h'.terminal] at hst
        cases hst
    · refine ⟨fun hn => ?_, fun st hst => ?_⟩
      · rw [h'.ended.terminal] at hn
        cases hn
      · obtain rfl := Option.some.inj (h'.ended.terminal.symm.trans hst)
        exact ⟨h'.ended, .failed _ hmem hact rfl (state_of_terminal h'.ended.terminal)
          (failureCode_of_failedBy (e := ⟨T, .poll, s, _⟩) hl h') (hcloses h'.closes)⟩
    · refine ⟨fun hn => ?_, fun st hst => ?_⟩
      · rw [h'.terminal] at hn
        cases hn
      · obtain rfl := Option.some.inj (h'.terminal.symm.trans hst)
        exact ⟨h', .byUser _ hmem hact rfl (state_of_terminal h'.terminal)
          (by simpa using h'.failure) (hcloses hc)⟩
    · refine ⟨fun hn => ?_, fun st hst => ?_⟩
      · rw [h'.terminal] at hn
        cases hn
      · obtain rfl := Option.some.inj (h'.terminal.symm.trans hst)
        exact ⟨h', .byPeer _ p hmem hact rfl (state_of_terminal h'.terminal)
          (by simpa using h'.failure) (hcloses (closeCalls_nil hc))⟩
  · obtain ⟨he, hin⟩ := hr.ended st hterm
    obtain ⟨he', hfail, hout, -⟩ := step_ended (C := C) (E := E) (T := T) he op
    refine ⟨fun hn => ?_, fun st' hst => ?_⟩
    · rw [he'.terminal] at hn
      cases hn
    · obtain rfl := Option.some.inj (he'.terminal.symm.trans hst)
      refine ⟨he', hin.extend hout ?_ hfail⟩
      rw [state_of_terminal he'.terminal, state_of_terminal he.terminal]

theorem execution_runControl {h : List Entry} {t : Millis} (hx : Execution C E h t s) :
    RunControl h s := by
  induction hx with
  | start t =>
    refine ⟨fun _ => ⟨⟨rfl, rfl, ?_⟩, rfl, by simp [create]⟩, fun st hst => by cases hst⟩
    exact ⟨rfl, rfl, rfl, rfl, rfl⟩
  | call op T _ _ ih => exact step_preserves_runControl ih op

def runOps (C : SessionConfig) (E : SessionIo) (s : Session) (ops : List (Op × Millis)) : Session :=
  ops.foldl (fun s c => step C E s c.1 c.2) s

theorem runOps_ended {st : SessionState} (he : Ended s st) (ops : List (Op × Millis)) :
    Ended (runOps C E s ops) st := by
  induction ops generalizing s with
  | nil => exact he
  | cons c rest ih => exact ih (step_ended he c.1).1

theorem active_iff {h : List Entry} (hr : RunControl h s) :
    s.active = true ↔ s.terminal = none := by
  rcases hterm : s.terminal with _ | st
  · simp [active_of_live hterm]
  · simp [not_active_of_ended (hr.ended st hterm).1]

/-- Every run keeps state, flags, timers and probes in step, ends a session at most once, for the
reason its flags and deadlines give, and owes the peer at most the one CLOSE of that end. -/
theorem session_timers_flags_and_end {h : List Entry} {t : Millis}
    (hx : Execution C E h t s) :
    (s.state = .connected ↔ s.terminal = none ∧ s.gotAck = true ∧ s.sentAck = true) ∧
      TimersFor s s.state ∧
      (s.active = true → s.failure = none ∧ closesOfRun h = [] ∧
        (s.punchStarted = true ↔ ∃ e ∈ h, e.op = .startPunch)) ∧
      (s.active = false → EndedIn h s ∧ s.probes = [] ∧ ∀ ops,
        (runOps C E s ops).state = s.state ∧
        ∀ op T, op.isTraffic = false →
          sentOf (step C E (runOps C E s ops) op T).out = []) := by
  have hr := execution_runControl hx
  refine ⟨?_, ?_, ?_, ?_⟩
  · rcases hterm : s.terminal with _ | st
    · simpa [hterm] using state_connected_iff hterm
    · rcases (hr.ended st hterm).1.isTerminal with rfl | rfl <;> simp [state_of_terminal hterm]
  · rcases hterm : s.terminal with _ | st
    · exact (hr.live hterm).1.timers
    · rw [state_of_terminal hterm]
      exact (hr.ended st hterm).1.timers
  · intro hact
    obtain ⟨hl, hrest⟩ := hr.live ((active_iff hr).mp hact)
    exact ⟨hl.failure, hrest⟩
  · intro hact
    rcases hterm : s.terminal with _ | st
    · rw [active_of_live hterm] at hact
      cases hact
    · obtain ⟨he, hin⟩ := hr.ended st hterm
      refine ⟨hin, he.probes, fun ops => ?_⟩
      have hend := runOps_ended (C := C) (E := E) he ops
      refine ⟨?_, fun op T hop => (step_ended hend op).2.2.2 hop⟩
      rw [state_of_terminal hend.terminal, state_of_terminal hterm]

/-! ## A run with a roaming peer -/

/-- The entries of the calls `ops` from `s` on. -/
def trace (C : SessionConfig) (E : SessionIo) (s : Session) : List (Op × Millis) → List Entry
  | [] => []
  | (op, T) :: rest =>
    ⟨T, op, s, step C E s op T⟩ :: trace C E (step C E s op T) rest

def lastTime (t : Millis) (ops : List (Op × Millis)) : Millis := ops.foldl (fun _ c => c.2) t

theorem execution_trace {h : List Entry} {t : Millis} (hx : Execution C E h t s)
    (ops : List (Op × Millis)) (hm : (t :: ops.map (·.2)).Pairwise (· ≤ ·)) :
    Execution C E (h ++ trace C E s ops) (lastTime t ops) (runOps C E s ops) := by
  induction ops generalizing h t s with
  | nil => rwa [trace, List.append_nil]
  | cons c rest ih =>
    obtain ⟨hle, hrest⟩ := List.pairwise_cons.mp hm
    have hstep := Execution.call c.1 c.2 hx (hle c.2 (by simp))
    have h := ih hstep hrest
    rwa [List.append_assoc] at h

def nonceOf (b : U8) : Nonce := ⟨List.replicate nonceSize b, rfl⟩

def roamHome : Endpoint := ⟨0xC0A80002, 5000⟩
def roamAway : Endpoint := ⟨0xCB007105, 4000⟩

def roamConfig : SessionConfig where
  localPeerId := 1
  localVirtualIp := 0x0A640001
  peerId := 2
  peerVirtualIp := 0x0A640002
  candidates := [roamHome]
  peerIsHost := false
  localEpoch := 7
  attemptNonce := nonceOf 1

def roamIo : SessionIo where
  sendOk _ := true
  draw _ := some (nonceOf 3)
  rttClockUs := none
  dataSink := true

/-- A packet of the peer with the number `seq`. -/
def roamPacket (type : PacketType) (nonce : Nonce) (seq : U32) (source : Endpoint) : RxPacket where
  header := headerOf type ⟨2, 9, seq⟩ (encodeHello ⟨nonce, 0x0A640002⟩)
  payload := encodeHello ⟨nonce, 0x0A640002⟩
  source := source

/-- The peer connects from its candidate, speaks from another address, answers the probe sent
there, and the user closes the session. -/
def roamOps : List (Op × Millis) :=
  [(.startPunch, 0),
    (.receive (roamPacket .hello (nonceOf 2) 1 roamHome), 10),
    (.receive (roamPacket .helloAck (nonceOf 1) 2 roamHome), 20),
    (.receive (roamPacket .hello (nonceOf 2) 3 roamAway), 30),
    (.receive (roamPacket .helloAck (nonceOf 3) 4 roamAway), 40),
    (.closeByUser, 50)]

def roamRun : List Entry := trace roamConfig roamIo (create 0) roamOps
def roamEnd : Session := runOps roamConfig roamIo (create 0) roamOps

theorem roam_execution : Execution roamConfig roamIo roamRun 50 roamEnd :=
  execution_trace (.start 0) roamOps (by decide)

theorem roam_ends_by_user : EndedIn roamRun roamEnd ∧ roamEnd.state = .closed ∧
    closesOfRun roamRun = [(roamAway, encodeClose .normal)] :=
  ⟨((session_timers_flags_and_end roam_execution).2.2.2 (by decide +kernel)).1,
    by decide +kernel, by decide +kernel⟩

end Sangtachi.Peer
