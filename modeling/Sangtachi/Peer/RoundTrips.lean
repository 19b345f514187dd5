import Sangtachi.Peer.Deadlines
import Sangtachi.Peer.Drops
import Sangtachi.Peer.Renegotiation
import Sangtachi.Peer.Rosters

/-! # Round trip samples

A PING is remembered with the time of its sending; a PONG with its number makes one sample of it.
The table of unanswered PINGs lives within one connected period: what ends the period clears it or
ends the session. -/
namespace Sangtachi.Peer

open Sangtachi.BigEndian Sangtachi.Packet Sangtachi.Replay Sangtachi.InnerIpv4

variable {C : SessionConfig} {E : SessionIo} {s s' t : Session} {T : Millis}

/-! ## What leaves the samples alone -/

/-- What a session knows about its PINGs. -/
structure RttBook where
  pending : List PendingPing
  nextId : U64
  reads : ℕ
  samples : ℕ
  last : Option U64
  renegotiations : ℕ

def Session.rttBook (s : Session) : RttBook :=
  ⟨s.pendingPings, s.nextPingId, s.rttReads, s.rttSamples, s.lastRttUs, s.renegotiations⟩

def Event.isRtt : Event → Bool
  | .sent d => d.type = .ping
  | .line (.rtt _) => true
  | _ => false

def rttCalls (out : List Event) : List Event := out.filter Event.isRtt

@[simp] theorem rttCalls_nil : rttCalls [] = [] := rfl

@[simp] theorem rttCalls_append (a b : List Event) : rttCalls (a ++ b) = rttCalls a ++ rttCalls b :=
  List.filter_append ..

theorem rttCalls_sent {d : Sent} (h : d.type ≠ .ping) : rttCalls [.sent d] = [] := by
  simp [rttCalls, Event.isRtt, h]

theorem rttCalls_retired (epochs : List U32) : rttCalls (epochs.map .retired) = [] := by
  induction epochs with
  | nil => rfl
  | cons e rest ih => exact ih

/-- No PING and no sample. The flags only grow. -/
structure Unpinged (s s' : Session) : Prop where
  book : s'.rttBook = s.rttBook
  got : s.gotAck = true → s'.gotAck = true
  sent : s.sentAck = true → s'.sentAck = true
  calls : rttCalls s'.out = rttCalls s.out

theorem Unpinged.refl (s : Session) : Unpinged s s := ⟨rfl, id, id, rfl⟩

theorem Unpinged.trans (h : Unpinged s s') (k : Unpinged s' t) : Unpinged s t where
  book := k.book.trans h.book
  got hg := k.got (h.got hg)
  sent hs := k.sent (h.sent hs)
  calls := k.calls.trans h.calls

theorem emit_unpinged {e : Event} (h : e.isRtt = false) : Unpinged s (s.emit e) := by
  refine ⟨rfl, id, id, ?_⟩
  simp [Session.emit, rttCalls, h]

theorem count_unpinged (c : Counter) : Unpinged s (s.count c) := ⟨rfl, id, id, rfl⟩

theorem sendPacket_unpinged {type : PacketType} (ht : type ≠ .ping) (payload : List U8)
    (dest : Endpoint) :
    Unpinged s (sendPacket C E s type payload dest).2 := by
  obtain ⟨counters, calls, hs, hcalls⟩ := sendPacket_spec (C := C) (E := E) s type payload dest
  rw [hs]
  refine ⟨rfl, id, id, ?_⟩
  rcases hcalls with ⟨rfl, -, -⟩ | ⟨bytes, -, rfl, -⟩
  · simp
  · rw [rttCalls_append, rttCalls_sent (by exact ht), List.append_nil]

theorem sendEach_unpinged {type : PacketType} (ht : type ≠ .ping) (payload : List U8)
    (dests : List Endpoint) :
    Unpinged s (sendEach C E s type payload dests) := by
  induction dests generalizing s with
  | nil => exact .refl s
  | cons e rest ih => exact (sendPacket_unpinged ht payload e).trans ih

theorem sendToPeer_unpinged {type : PacketType} (ht : type ≠ .ping) (payload : List U8) :
    Unpinged s (sendToPeer C E s type payload) := by
  unfold sendToPeer
  split
  · exact sendPacket_unpinged ht payload _
  · exact sendEach_unpinged ht payload _

theorem sendUntilFailure_unpinged (inner : List U8) (dests : List Endpoint) :
    Unpinged s (sendUntilFailure C E s inner dests).2 := by
  induction dests generalizing s with
  | nil => exact .refl s
  | cons e rest ih =>
    have hsend := sendPacket_unpinged (C := C) (E := E) (s := s)
      (show PacketType.data ≠ .ping by decide) inner e
    unfold sendUntilFailure
    split
    · next heq => rwa [heq] at hsend
    · next heq =>
      rw [heq] at hsend
      exact hsend.trans ih

theorem sendData_unpinged (inner : List U8) : Unpinged s (sendData C E s inner).2 := by
  unfold sendData
  split
  · exact sendPacket_unpinged (by decide) inner _
  · exact sendUntilFailure_unpinged inner _

theorem sendHelloRound_unpinged : Unpinged s (sendHelloRound C E s) :=
  sendEach_unpinged (by decide) _ _

theorem Spend.unpinged {dest : Endpoint} {granted : Bool} (h : Spend C s dest T granted s') :
    Unpinged s s' := by
  obtain ⟨counters, milli, stamp, rfl⟩ := h.updates
  exact ⟨rfl, id, id, rfl⟩

theorem SentOne.unpinged {type : PacketType} {payload : List U8} {dest : Endpoint}
    (ht : type ≠ .ping) (h : SentOne C E s type payload dest s') : Unpinged s s' := by
  obtain ⟨counters, bytes, -⟩ := h
  refine ⟨rfl, id, id, ?_⟩
  rw [rttCalls_append, rttCalls_sent (by exact ht), List.append_nil]

theorem sendHelloAck_unpinged (echo : Nonce) (dest : Endpoint) :
    Unpinged s (sendHelloAck C E s echo dest T) := by
  rcases sendHelloAck_cases (C := C)
    (E := E) s echo dest T with hspend | ⟨u, v, counters, hspend, hsent, heq⟩
  · exact hspend.unpinged
  · have hv := hspend.unpinged.trans (hsent.unpinged (by decide))
    have hflag : v.sentAck = u.sentAck := by
      cases hsent
      rfl
    rw [heq]
    refine hv.trans ⟨rfl, id, ?_, rfl⟩
    intro hs
    rw [hflag] at hs
    simp [hs]

theorem sendPong_unpinged (pingId : U64) (dest : Endpoint) :
    Unpinged s (sendPong C E s pingId dest T) := by
  rcases sendPong_cases (C := C) (E := E) s pingId dest T with hspend | ⟨u, hspend, hsent⟩
  · exact hspend.unpinged
  · exact hspend.unpinged.trans (hsent.unpinged (by decide))

theorem expireProbes_unpinged : Unpinged s (expireProbes s T) := ⟨rfl, id, id, rfl⟩

theorem startPathProbe_unpinged (source : Endpoint) :
    Unpinged s (startPathProbe C E s source T) := by
  apply (expireProbes_unpinged (s := s) (T := T)).trans
  unfold startPathProbe
  dsimp only
  split
  · exact .refl _
  split
  · exact count_unpinged _
  split
  · exact ⟨rfl, id, id, rfl⟩
  · have hspend := (spendFor_spend (C := C)
      { expireProbes s T with draws := (expireProbes s T).draws + 1 } source T).unpinged (T := T)
    have hdraw :
      Unpinged (expireProbes s T) { expireProbes s T with draws := (expireProbes s T).draws + 1 } :=
      ⟨rfl, id, id, rfl⟩
    apply hdraw.trans
    split
    · next heq => rwa [heq] at hspend
    · next heq =>
      rw [heq] at hspend
      refine (hspend.trans ?_).trans (sendPacket_unpinged (by decide) _ _)
      exact ⟨rfl, id, id, rfl⟩

theorem sendKeepalive_unpinged : Unpinged s (sendKeepalive C E s T) :=
  (sendToPeer_unpinged (by decide) []).trans ⟨rfl, id, id, rfl⟩

theorem sendClose_unpinged (reason : CloseReason) : Unpinged s (sendClose C E s reason) := by
  unfold sendClose
  split
  · exact .refl s
  · exact sendPacket_unpinged (by decide) _ _

theorem enterConnected_unpinged : Unpinged s (enterConnected C E s T) := by
  unfold enterConnected
  apply Unpinged.trans _ sendKeepalive_unpinged
  exact ⟨rfl, id, id, rfl⟩

theorem settle_unpinged (before : SessionState) : Unpinged s (settle C E s before T) := by
  unfold settle notify
  dsimp only
  split_ifs
  · exact .refl s
  · exact enterConnected_unpinged.trans (emit_unpinged rfl)
  · exact emit_unpinged rfl

theorem stopTimers_unpinged : Unpinged s (stopTimers s) := ⟨rfl, id, id, rfl⟩

theorem enterTerminal_unpinged (st : SessionState) : Unpinged s (enterTerminal s st T) := by
  refine ⟨rfl, id, id, ?_⟩
  simp [enterTerminal, notify, Session.emit, stopTimers, rttCalls, Event.isRtt]

theorem fail_unpinged (failure : SessionFailure) : Unpinged s (fail C E s failure T) := by
  have hclosed :=
    (stopTimers_unpinged (s := s)).trans (sendClose_unpinged (C := C) (E := E) .setupFailed)
  unfold fail
  dsimp only
  generalize sendClose C E (stopTimers s) .setupFailed = u at hclosed ⊢
  have hfailed : Unpinged u { u with failure := some failure } := ⟨rfl, id, id, rfl⟩
  exact hclosed.trans (hfailed.trans ((emit_unpinged rfl).trans (enterTerminal_unpinged .failed)))

theorem closeByUser_unpinged : Unpinged s (closeByUser C E s T) := by
  unfold closeByUser
  dsimp only
  split_ifs
  · exact .refl s
  · exact (sendClose_unpinged _).trans (enterTerminal_unpinged _)
  · exact (sendClose_unpinged _).trans (enterTerminal_unpinged _)

theorem startPunch_unpinged : Unpinged s (startPunch C E s T).2 := by
  unfold startPunch
  dsimp only
  split_ifs
  · exact .refl s
  · exact ⟨rfl, id, id, rfl⟩
  · apply Unpinged.trans _ (Unpinged.trans (sendHelloRound_unpinged (C := C) (E := E)) _)
    · exact { s with punchStarted := true }
    · exact ⟨rfl, id, id, rfl⟩
    · exact ⟨rfl, id, id, rfl⟩

theorem tick_unpinged (kind : TimerKind) (timer : Timer) : Unpinged s (emitTick s kind timer T) :=
  emit_unpinged rfl

theorem pollHello_unpinged : Unpinged s (pollHello C E s T) := by
  unfold pollHello
  split_ifs
  · exact ((tick_unpinged _ _).trans sendHelloRound_unpinged).trans ⟨rfl, id, id, rfl⟩
  · exact .refl s

theorem pollKeepalive_unpinged : Unpinged s (pollKeepalive C E s T) := by
  unfold pollKeepalive
  split_ifs
  · exact (tick_unpinged _ _).trans sendKeepalive_unpinged
  · exact .refl s

theorem learn_unpinged (source : Endpoint) : Unpinged s (learn s source) := by
  unfold learn
  split_ifs
  · exact .refl s
  · exact ((count_unpinged _).trans (emit_unpinged (e := .line (.endpoint source)) rfl)).trans
      ⟨rfl, id, id, rfl⟩

theorem learnSource_unpinged (p : RxPacket) (pass : EpochPass) (d : ReplayDecision) :
    Unpinged s (learnSource C s p pass d).2 := by
  have hmark : ∀ i, Unpinged s (markAnswered s i) := fun _ => ⟨rfl, id, id, rfl⟩
  unfold learnSource
  split
  · next i =>
    dsimp only
    split_ifs
    · exact (hmark i).trans (learn_unpinged _)
    · exact hmark i
  · split_ifs
    · exact learn_unpinged _
    · exact .refl s
    · exact .refl s

theorem takeRoster_unpinged (r : Roster) : Unpinged s (takeRoster s r) := by
  unfold takeRoster
  split_ifs
  · exact .refl s
  · exact (emit_unpinged (e := .line (.roster r.generation r.members)) rfl).trans ⟨rfl, id, id, rfl⟩

theorem pin_unpinged (epoch : U32) : Unpinged s (pin s epoch) := by
  unfold pin
  split_ifs
  · exact ⟨rfl, id, id, rfl⟩
  · exact .refl s

theorem renewIdle_unpinged (before : SessionState) : Unpinged s (renewIdle s before T) := by
  unfold renewIdle
  split_ifs
  · exact ⟨rfl, id, id, rfl⟩
  · exact .refl s

theorem raiseSource_unpinged (source : Endpoint) (probeSource : Bool) :
    Unpinged s (raiseSource C E s source probeSource T) := by
  unfold raiseSource
  split_ifs
  · exact startPathProbe_unpinged source
  · exact .refl s

theorem dropWithoutSink_unpinged (body : Body) : Unpinged s (dropWithoutSink E s body).2 := by
  unfold dropWithoutSink
  split_ifs
  · exact count_unpinged _
  · exact .refl s

theorem afterRenegotiation_unpinged (p : RxPacket) : Unpinged s (afterRenegotiation C E s p T) := by
  unfold afterRenegotiation
  split_ifs
  · exact .refl s
  · exact startPathProbe_unpinged _

theorem recorded_unpinged (p : RxPacket) : Unpinged s (recorded s p) := ⟨rfl, id, id, rfl⟩

/-! ## What a call does to the samples -/

def young (s : Session) (T : Millis) : List PendingPing := (expirePings s T).pendingPings

/-- The RTT clock's next reading, and how many readings there are after it. -/
def rttReading (E : SessionIo) (reads : ℕ) : U64 :=
  (E.rttClockUs.map fun clock => clock reads).getD 0

def readsAfter (E : SessionIo) (reads : ℕ) : ℕ := if E.rttClockUs.isSome then reads + 1 else reads

/-- The sample of a PONG, if there is an RTT clock. -/
def sampleOf (E : SessionIo) (s : Session) (ping : PendingPing) : Option U64 :=
  E.rttClockUs.map fun clock => clock s.rttReads - ping.sentUs

/-- What one call does. The flags grow unless it renegotiates. -/
inductive Pinged (E : SessionIo) (s : Session) (op : Op) (T : Millis) (s' : Session) : Prop where
  | quiet (pending : List PendingPing) (kept : pending = s.pendingPings ∨ pending = young s T)
    (book : s'.rttBook = { s.rttBook with pending := pending })
    (got : s.gotAck = true → s'.gotAck = true)
    (sent : s.sentAck = true → s'.sentAck = true)
    (calls : rttCalls s'.out = rttCalls s.out)
  | renegotiated
    (book : s'.rttBook = { s.rttBook with pending := [], renegotiations := s.renegotiations + 1 })
    (calls : rttCalls s'.out = rttCalls s.out)
  | round (d : Millis) (pings : List Sent) (isPoll : op = .poll) (wasDue : s.ping.due = some d)
    (free : (young s T).length < maxPendingPings)
    (book : s'.rttBook = { s.rttBook with
      pending :=
        (young s T).filter (·.id ≠ s.nextPingId) ++ [⟨s.nextPingId, T, rttReading E s.rttReads⟩]
      nextId := s.nextPingId + 1
      reads := readsAfter E s.rttReads })
    (got : s.gotAck = true → s'.gotAck = true) (sent : s.sentAck = true → s'.sentAck = true)
    (calls : rttCalls s'.out = rttCalls s.out ++ pings.map .sent)
    (numbered : ∀ d ∈ pings, d.type = .ping ∧ d.payload = encodePing s.nextPingId)
  | answered (p : RxPacket) (pingId : U64) (ping : PendingPing) (isReceive : op = .receive p)
    (active : s.active = true)
    (type : p.type = some .pong) (decoded : decodePing p.payload = .ok pingId)
    (epoch : s.pinned = some p.header.sessionEpoch)
    (found : (young s T).find? (·.id = pingId) = some ping)
    (book : s'.rttBook = { s.rttBook with
      pending := (young s T).filter (·.id ≠ pingId)
      reads := readsAfter E s.rttReads
      samples := s.rttSamples + (sampleOf E s ping).toList.length
      last := (sampleOf E s ping).or s.lastRttUs })
    (got : s.gotAck = true → s'.gotAck = true) (sent : s.sentAck = true → s'.sentAck = true)
    (calls : rttCalls s'.out = rttCalls s.out ++
      (sampleOf E s ping).toList.map fun us => .line (.rtt us))

theorem Unpinged.quiet {op : Op} (h : Unpinged s s') : Pinged E s op T s' :=
  .quiet s.pendingPings (.inl rfl) h.book h.got h.sent h.calls

theorem sendPacket_pings (pingId : U64) (dest : Endpoint) :
    ∃ d, (sendPacket C E s .ping (encodePing pingId) dest).2.rttBook = s.rttBook ∧
      (sendPacket C E s .ping (encodePing pingId) dest).2.gotAck = s.gotAck ∧
      (sendPacket C E s .ping (encodePing pingId) dest).2.sentAck = s.sentAck ∧
      (sendPacket C E s .ping (encodePing pingId) dest).2.ping = s.ping ∧
      rttCalls (sendPacket C E s .ping (encodePing pingId) dest).2.out =
        rttCalls s.out ++ [.sent d] ∧
      d.type = .ping ∧ d.payload = encodePing pingId := by
  obtain ⟨hsent, -⟩ := sendPacket_sentOne (C := C) (E := E) (s := s) dest (pingLength_ok pingId).2
  generalize (sendPacket C E s .ping (encodePing pingId) dest).2 = u at hsent ⊢
  obtain ⟨counters, bytes, -⟩ := hsent
  exact ⟨nextSent C E s .ping (encodePing pingId) bytes dest, rfl, rfl, rfl, rfl, by
    rw [rttCalls_append]; rfl, rfl, rfl⟩

structure Round (pingId : U64) (s s' : Session) : Prop where
  book : s'.rttBook = s.rttBook
  got : s'.gotAck = s.gotAck
  sent : s'.sentAck = s.sentAck
  ping : s'.ping = s.ping
  calls : ∃ pings : List Sent, rttCalls s'.out = rttCalls s.out ++ pings.map .sent ∧
    ∀ d ∈ pings, d.type = .ping ∧ d.payload = encodePing pingId

theorem sendEach_round (pingId : U64) (dests : List Endpoint) :
    Round pingId s (sendEach C E s .ping (encodePing pingId) dests) := by
  induction dests generalizing s with
  | nil => exact ⟨rfl, rfl, rfl, rfl, [], by simp [sendEach], fun d hd => (by cases hd)⟩
  | cons e rest ih =>
    obtain ⟨d, hbook, hgot, hsent, hping, hcalls, htype, hpayload⟩ :=
      sendPacket_pings (C := C) (E := E) (s := s) pingId e
    have h := ih (s := (sendPacket C E s .ping (encodePing pingId) e).2)
    obtain ⟨pings, hpings, hall⟩ := h.calls
    refine ⟨h.book.trans hbook, h.got.trans hgot, h.sent.trans hsent, h.ping.trans hping,
      d :: pings, ?_, ?_⟩
    · exact hpings.trans (by rw [hcalls, List.append_assoc]; rfl)
    · intro d' hd'
      rcases List.mem_cons.mp hd' with rfl | hd'
      · exact ⟨htype, hpayload⟩
      · exact hall d' hd'

theorem sendToPeer_round (pingId : U64) :
    Round pingId s (sendToPeer C E s .ping (encodePing pingId)) := by
  unfold sendToPeer
  split
  · next e _ => exact sendEach_round pingId [e]
  · exact sendEach_round pingId _

theorem readRttClock_eq (s : Session) :
    readRttClock E s =
      (rttReading E s.rttReads, { s with rttReads := readsAfter E s.rttReads }) := by
  unfold readRttClock rttReading readsAfter
  cases E.rttClockUs <;> rfl

/-- Where the table has room the next number is used, with a fresh reading of the RTT clock. -/
theorem sendPing_round {s₀ : Session} (h : Unpinged s₀ s)
    (free : (young s₀ T).length < maxPendingPings) :
    (sendPing C E s T).rttBook = { s₀.rttBook with
      pending := (young s₀ T).filter (·.id ≠ s₀.nextPingId) ++
        [⟨s₀.nextPingId, T, rttReading E s₀.rttReads⟩]
      nextId := s₀.nextPingId + 1
      reads := readsAfter E s₀.rttReads } ∧
    (sendPing C E s T).gotAck = s.gotAck ∧ (sendPing C E s T).sentAck = s.sentAck ∧
    ∃ pings : List Sent, rttCalls (sendPing C E s T).out = rttCalls s.out ++ pings.map .sent ∧
      ∀ d ∈ pings, d.type = .ping ∧ d.payload = encodePing s₀.nextPingId := by
  have hpending : s.pendingPings = s₀.pendingPings := congrArg RttBook.pending h.book
  have hnext : s.nextPingId = s₀.nextPingId := congrArg RttBook.nextId h.book
  have hyoung : young s T = young s₀ T := by simp only [young, expirePings, hpending]
  obtain ⟨v, hv⟩ : ∃ v : Session, v = { expirePings { s with ping := arm T pingIntervalMs } T with
    nextPingId := s.nextPingId + 1 } := ⟨_, rfl⟩
  have hvbook : v.rttBook =
    { s₀.rttBook with pending := young s₀ T, nextId := s₀.nextPingId + 1 } := by
    rw [← h.book, ← hyoung, ← hnext, hv]
    rfl
  have hgot : v.gotAck = s.gotAck := by rw [hv]; rfl
  have hsent : v.sentAck = s.sentAck := by rw [hv]; rfl
  have hout : v.out = s.out := by rw [hv]; rfl
  have hreads : v.rttReads = s₀.rttReads := congrArg RttBook.reads hvbook
  have hvpending : v.pendingPings = young s₀ T := congrArg RttBook.pending hvbook
  have hping : sendPing C E s T = sendToPeer C E { (readRttClock E v).2 with
      pendingPings := (readRttClock E v).2.pendingPings.filter (·.id ≠ s.nextPingId) ++
        [⟨s.nextPingId, T, (readRttClock E v).1⟩] } .ping (encodePing s.nextPingId) := by
    unfold sendPing
    dsimp only
    rw [if_neg, hv]
    · rfl
    · have hroom := hyoung ▸ free
      exact not_le.mpr hroom
  rw [hping, readRttClock_eq, hnext]
  dsimp only
  have hround := sendToPeer_round (C := C) (E := E) (s := { v with
    rttReads := readsAfter E v.rttReads
    pendingPings := v.pendingPings.filter (·.id ≠ s₀.nextPingId) ++
      [⟨s₀.nextPingId, T, rttReading E v.rttReads⟩] }) s₀.nextPingId
  obtain ⟨pings, hpings, hall⟩ := hround.calls
  refine ⟨?_, hround.got.trans hgot, hround.sent.trans hsent, pings, ?_, hall⟩
  · rw [hround.book, ← hreads, ← hvpending]
    change ({ v.rttBook with pending := _, reads := _ } : RttBook) = _
    rw [hvbook]
  · rw [hpings]
    change rttCalls v.out ++ _ = _
    rw [hout]

theorem sendPing_pinged {s₀ : Session} {d : Millis} (h : Unpinged s₀ s)
    (hdue : s₀.ping.due = some d) :
    Pinged E s₀ .poll T (sendPing C E s T) := by
  by_cases hfree : (young s₀ T).length < maxPendingPings
  · obtain ⟨hbook, hgot, hsent, pings, hcalls, hall⟩ := sendPing_round (C := C) (E := E) h hfree
    refine .round d pings rfl hdue hfree hbook ?_ ?_ ?_ hall
    · intro hg
      exact hgot.trans (h.got hg)
    · intro hs
      exact hsent.trans (h.sent hs)
    · rw [hcalls, h.calls]
  · have hpending : s.pendingPings = s₀.pendingPings := congrArg RttBook.pending h.book
    have hyoung : young s T = young s₀ T := by simp only [young, expirePings, hpending]
    have hfull : maxPendingPings ≤
      (expirePings { s with ping := arm T pingIntervalMs } T).pendingPings.length := by
      have hroom := not_lt.mp hfree
      rw [← hyoung] at hroom
      exact hroom
    unfold sendPing
    dsimp only
    rw [if_pos hfull]
    refine .quiet (young s₀ T) (.inr rfl) ?_ h.got h.sent h.calls
    rw [← h.book, ← hyoung]
    rfl

theorem poll_pinged : Pinged E s .poll T (poll C E s T) := by
  have hexpired := expireProbes_unpinged (s := s) (T := T)
  unfold poll
  dsimp only
  split_ifs
  · exact (Unpinged.refl s).quiet
  · exact (hexpired.trans ((tick_unpinged _ _).trans (fail_unpinged _))).quiet
  · exact (hexpired.trans ((tick_unpinged _ _).trans (fail_unpinged _))).quiet
  · exact (hexpired.trans ((tick_unpinged _ _).trans (fail_unpinged _))).quiet
  · have h := hexpired.trans ((pollHello_unpinged (C := C) (E := E) (T := T)).trans
      (pollKeepalive_unpinged (C := C) (E := E) (T := T)))
    have hping : (pollKeepalive C E (pollHello C E (expireProbes s T) T) T).ping = s.ping :=
      pollKeepalive_timers.ping.trans pollHello_timers.ping
    generalize pollKeepalive C E (pollHello C E (expireProbes s T) T) T = u at h hping ⊢
    unfold pollPing
    by_cases hdue : u.ping.isDue T = true
    · rw [if_pos hdue]
      rw [hping] at hdue
      obtain ⟨d, hd⟩ : ∃ d, s.ping.due = some d := by
        unfold Timer.isDue at hdue
        cases hs : s.ping.due with
        | none => simp [hs] at hdue
        | some d => exact ⟨d, rfl⟩
      exact sendPing_pinged (h.trans (tick_unpinged .ping u.ping)) hd
    · rw [if_neg hdue]
      exact h.quiet

/-! ## Receiving -/

theorem checkEpoch_other {p : RxPacket} {u : Session} {pass : EpochPass}
    (hhello : p.type ≠ some .hello) (hack : p.type ≠ some .helloAck)
    (h : checkEpoch C E s p T = (u, .ok pass)) :
    u = s ∧ pass = .other := by
  unfold checkEpoch at h
  split at h
  · next htype => exact absurd htype hhello
  · next htype => exact absurd htype hack
  · split at h
    · cases h
    · split_ifs at h
      · cases h
      · cases h
        exact ⟨rfl, rfl⟩

theorem checkType_passed {p : RxPacket} {w : Session} {body : Body}
    (h : checkType C s p T = (w, .ok body)) :
    (∃ pingId, body = .pong pingId ∧ p.type = some .pong ∧ decodePing p.payload = .ok pingId ∧
      w = expirePings s T ∧
      (young s T).any (·.id = pingId)) ∨ (w = s ∧ ∀ pingId, body ≠ .pong pingId) := by
  unfold checkType at h
  split at h
  case h_1 =>
    split_ifs at h
    · cases h
    · split at h
      · cases h
      · cases h
        exact .inr ⟨rfl, fun _ hne => by cases hne⟩
  case h_2 =>
    split at h
    · cases h
    · cases h
      exact .inr ⟨rfl, fun _ hne => by cases hne⟩
  case h_3 htype =>
    split at h
    · cases h
    · next pingId hdecode =>
      dsimp only at h
      split_ifs at h with hany
      · cases h
        exact .inl ⟨pingId, rfl, htype, hdecode, rfl, hany⟩
      · cases h
  case h_4 =>
    split at h
    · cases h
    · cases h
      exact .inr ⟨rfl, fun _ hne => by cases hne⟩
  case h_5 =>
    split at h
    · cases h
    · cases h
      exact .inr ⟨rfl, fun _ hne => by cases hne⟩
  case h_6 =>
    cases h
    exact .inr ⟨rfl, fun _ hne => by cases hne⟩

theorem act_unpinged {p : RxPacket} {pass : EpochPass} {body : Body} (before : SessionState)
    (hbody : pass = .other → ∀ pingId, body ≠ .pong pingId) :
    Unpinged s (act C E s p pass body before T) := by
  unfold act
  cases pass with
  | hello h renegotiated => exact sendHelloAck_unpinged _ _
  | ack h probe =>
    cases probe with
    | some i => exact .refl s
    | none =>
      dsimp only
      split_ifs
      · exact count_unpinged _
      · exact ⟨rfl, fun _ => rfl, id, rfl⟩
  | other =>
    cases body with
    | ping pingId => exact sendPong_unpinged pingId _
    | pong pingId => exact absurd rfl (hbody rfl pingId)
    | roster r => exact takeRoster_unpinged r
    | data =>
      dsimp only [actOther]
      split_ifs
      · exact emit_unpinged rfl
      · exact .refl s
    | close reason => exact .refl s
    | bare => exact .refl s

theorem applyEffects_around {p : RxPacket} (pass : EpochPass) (d : ReplayDecision) {body : Body}
    (hclose : ∀ reason, body ≠ .close reason) :
    ∃ v, Unpinged s v ∧ Unpinged (act C E v p pass body s.state T)
      (applyEffects C E s p pass d body T).2 := by
  have hlearned :=
    (pin_unpinged (s := s) p.header.sessionEpoch).trans (learnSource_unpinged (C := C) p pass d)
  unfold applyEffects
  dsimp only
  generalize learnSource C (pin s p.header.sessionEpoch) p pass d = r at hlearned ⊢
  obtain ⟨probeSource, u⟩ := r
  have hafter : ∀ v, Unpinged v
    (dropWithoutSink E (settle C E (raiseSource C E v p.source probeSource T) s.state T) body).2 :=
    fun v =>
      (raiseSource_unpinged _ _).trans ((settle_unpinged _).trans (dropWithoutSink_unpinged _))
  refine ⟨renewIdle u s.state T, hlearned.trans (renewIdle_unpinged _), ?_⟩
  cases body with
  | close reason => exact absurd rfl (hclose reason)
  | _ => exact hafter _

theorem applyEffects_unpinged {p : RxPacket} {pass : EpochPass} (d : ReplayDecision) {body : Body}
    (hbody : pass = .other → ∀ pingId, body ≠ .pong pingId) :
    Unpinged s (applyEffects C E s p pass d body T).2 := by
  have hrest : (∀ reason, body ≠ .close reason) →
    Unpinged s (applyEffects C E s p pass d body T).2 := by
    intro hclose
    obtain ⟨v, hv, hafter⟩ :=
      applyEffects_around (C := C) (E := E) (s := s) (T := T) (p := p) pass d hclose
    exact hv.trans ((act_unpinged _ hbody).trans hafter)
  cases body with
  | close reason =>
    have hlearned :=
      (pin_unpinged (s := s) p.header.sessionEpoch).trans (learnSource_unpinged (C := C) p pass d)
    unfold applyEffects
    dsimp only
    generalize learnSource C (pin s p.header.sessionEpoch) p pass d = r at hlearned ⊢
    obtain ⟨probeSource, u⟩ := r
    have hrenewed := hlearned.trans (renewIdle_unpinged (T := T) s.state)
    generalize renewIdle u s.state T = v at hrenewed ⊢
    have hreason : Unpinged v { v with peerCloseReason := some reason } := ⟨rfl, id, id, rfl⟩
    exact hrenewed.trans (hreason.trans (enterTerminal_unpinged .closed))
  | _ => exact hrest fun _ hne => by cases hne

theorem restartPunch_unpinged : Unpinged s (restartPunch C E s T) := by
  unfold restartPunch
  split_ifs
  · have hround :=
      sendHelloRound_unpinged (C := C) (E := E) (s := { s with punch := arm T punchDeadlineMs })
    exact ⟨hround.book, hround.got, hround.sent, hround.calls⟩
  · exact .refl s

theorem renegotiate_book (p : RxPacket) (nonce : Nonce) :
    (renegotiate C E s p nonce T).rttBook =
        { s.rttBook with pending := [], renegotiations := s.renegotiations + 1 } ∧
      rttCalls (renegotiate C E s p nonce T).out = rttCalls s.out := by
  have hack := sendHelloAck_unpinged (C := C) (E := E) (T := T)
    (s := resetForEpoch s p.header.sessionEpoch T) nonce p.source
  unfold renegotiate
  dsimp only
  generalize sendHelloAck C E (resetForEpoch s p.header.sessionEpoch T) nonce p.source
    T = u at hack ⊢
  have hstop : Unpinged u (stopTraffic u) := ⟨rfl, id, id, rfl⟩
  have h := hack.trans (hstop.trans ((restartPunch_unpinged (C := C) (E := E) (T := T)).trans
    (settle_unpinged (C := C) (E := E) (T := T) s.state)))
  refine ⟨h.book, h.calls.trans ?_⟩
  simp only [resetForEpoch, rttCalls_append, rttCalls_retired, List.append_nil]

theorem takePong_answered {pingId : U64} {ping : PendingPing}
    (hfound : s.pendingPings.find? (·.id = pingId) = some ping) :
    (takePong E s pingId).rttBook = { s.rttBook with
        pending := s.pendingPings.filter (·.id ≠ pingId)
        reads := readsAfter E s.rttReads
        samples := s.rttSamples + (sampleOf E s ping).toList.length
        last := (sampleOf E s ping).or s.lastRttUs } ∧
      rttCalls (takePong E s pingId).out =
        rttCalls s.out ++ (sampleOf E s ping).toList.map fun us => .line (.rtt us) := by
  unfold takePong sampleOf readsAfter
  rw [hfound]
  cases hclock : E.rttClockUs with
  | none => exact ⟨by simp [Session.rttBook], by simp⟩
  | some clock =>
    refine ⟨by simp [Session.rttBook, readRttClock, hclock, Session.emit], ?_⟩
    simp only [readRttClock, hclock, Session.emit, rttCalls_append]
    rfl

theorem applyEffects_answered {w : Session} {p : RxPacket} {pingId : U64} (d : ReplayDecision)
    (hactive : s.active = true) (hepoch : s.pinned = some p.header.sessionEpoch)
    (htype : p.type = some .pong)
    (hdecode : decodePing p.payload = .ok pingId)
    (hw : w.rttBook = { s.rttBook with pending := young s T }) (hgot : w.gotAck = s.gotAck)
    (hsent : w.sentAck = s.sentAck)
    (hout : rttCalls w.out = rttCalls s.out) (hany : (young s T).any (·.id = pingId)) :
    Pinged E s (.receive p) T (applyEffects C E w p .other d (.pong pingId) T).2 := by
  obtain ⟨v, hv, hafter⟩ :=
    applyEffects_around (C := C) (E := E) (s := w) (T := T) (p := p) .other d
    (show ∀ reason, Body.pong pingId ≠ .close reason from fun _ hne => by cases hne)
  have hpending : v.pendingPings = young s T := congrArg RttBook.pending (hv.book.trans hw)
  obtain ⟨ping, hfound⟩ : ∃ ping, (young s T).find? (·.id = pingId) = some ping :=
    Option.isSome_iff_exists.mp (by simpa using hany)
  have htaken := takePong_answered (E := E) (s := v) (hpending ▸ hfound)
  have hsame := takePong_same (E := E) (s := v) pingId
  change Unpinged (takePong E v pingId) _ at hafter
  have hreads : v.rttReads = s.rttReads := congrArg RttBook.reads (hv.book.trans hw)
  have hsample : sampleOf E v ping = sampleOf E s ping := by simp only [sampleOf, hreads]
  refine .answered p pingId ping rfl hactive htype hdecode hepoch hfound ?_ ?_ ?_ ?_
  · rw [hafter.book, htaken.1, hv.book, hw, hpending, hreads, hsample]
    have hsamples : v.rttSamples = s.rttSamples := congrArg RttBook.samples (hv.book.trans hw)
    have hlast : v.lastRttUs = s.lastRttUs := congrArg RttBook.last (hv.book.trans hw)
    rw [hsamples, hlast]
  · intro hg
    exact hafter.got (hsame.got_ack.trans (hv.got (hgot.trans hg)))
  · intro hs
    exact hafter.sent (hsame.sent_ack.trans (hv.sent (hsent.trans hs)))
  · rw [hafter.calls, htaken.2, hv.calls, hout, hsample]

theorem receive_pinged (p : RxPacket) : Pinged E s (.receive p) T (receive C E s p T).2 := by
  have hexpired : ∀ {u}, u = s ∨ u = expireProbes s T → Unpinged s u := by
    rintro u (rfl | rfl)
    · exact .refl _
    · exact expireProbes_unpinged
  have hreceived := receive_cases (C := C) (E := E) s p T
  have hchecked := checkEpoch_cases (C := C) (E := E) s p T
  generalize receive C E s p T = result at hreceived ⊢
  cases hreceived with
  | inactive hactive => exact (count_unpinged _).quiet
  | refused u c hactive hcheck =>
    rw [hcheck] at hchecked
    cases hchecked with
    | refused _ _ hu => exact ((hexpired hu).trans (count_unpinged c)).quiet
  | repeated u pass c hactive hcheck hrejected =>
    rw [hcheck] at hchecked
    cases hchecked with
    | passed _ _ hu _ _ _ => exact ((hexpired hu).trans (count_unpinged c)).quiet
    | renegotiated h old htype hold hne =>
      rw [(renegotiated_passes _ htype hold).1] at hrejected
      cases hrejected
  | invalid u w pass c hactive hcheck haccepted htyped =>
    rw [hcheck] at hchecked
    cases hchecked with
    | passed _ _ hu _ _ _ =>
      have hrecorded := (hexpired hu).trans (recorded_unpinged p)
      rcases checkType_refused htyped with rfl | rfl
      · exact (hrecorded.trans (count_unpinged c)).quiet
      · refine .quiet (young s T) (.inr rfl) ?_ hrecorded.got hrecorded.sent hrecorded.calls
        have hpending : (recorded u p).pendingPings = s.pendingPings :=
          congrArg RttBook.pending hrecorded.book
        change ({ (recorded u p).rttBook with pending := young (recorded u p) T } : RttBook) = _
        rw [hrecorded.book]
        simp only [young, expirePings, hpending]
    | renegotiated h old htype hold hne =>
      rw [(renegotiated_passes _ htype hold).2] at htyped
      simp at htyped
  | renegotiated u w pass body hactive hcheck haccepted htyped hreneg =>
    rw [hcheck] at hchecked
    cases hchecked with
    | passed _ _ _ hnot _ _ =>
      rw [hreneg] at hnot
      cases hnot
    | renegotiated h old htype hold hne =>
      rw [(renegotiated_passes _ htype hold).2] at htyped
      obtain ⟨rfl, -⟩ := Prod.mk.inj htyped
      obtain ⟨hbook, hcalls⟩ := renegotiate_book (C := C) (E := E) (s := s) (T := T) p h.nonce
      have hrest := (recorded_unpinged (s := renegotiate C E s p h.nonce T) p).trans
        (afterRenegotiation_unpinged (C := C) (E := E) (T := T) p)
      exact .renegotiated (hrest.book.trans hbook) (hrest.calls.trans hcalls)
  | applied u w pass body hactive hcheck haccepted htyped hnot =>
    have hcheck' := hcheck
    rw [hcheck] at hchecked
    cases hchecked with
    | passed _ _ hu _ hpin hother =>
      have hrecorded := (hexpired hu).trans (recorded_unpinged p)
      rcases checkType_passed htyped with ⟨pingId, rfl, htype, hdecode, rfl, hany⟩ | ⟨rfl, hbody⟩
      · obtain ⟨rfl, rfl⟩ :=
          checkEpoch_other (by rw [htype]; decide) (by rw [htype]; decide) hcheck'
        have hepoch := hother (by rw [htype]; decide) (by rw [htype]; decide)
        exact applyEffects_answered _ hactive hepoch htype hdecode rfl rfl rfl rfl hany
      · exact (hrecorded.trans (applyEffects_unpinged _ fun _ => hbody)).quiet
    | renegotiated h old htype hold hne => cases hnot

theorem step_pinged (op : Op) : Pinged E { s with out := [] } op T (step C E s op T) := by
  cases op with
  | startPunch => exact startPunch_unpinged.quiet
  | poll => exact poll_pinged
  | receive p => exact receive_pinged p
  | sendData inner => exact (sendData_unpinged inner).quiet
  | sendRoster payload => exact (sendToPeer_unpinged (by decide) payload).quiet
  | closeByUser => exact closeByUser_unpinged.quiet

/-! ## Rounds and samples of a run -/

/-- The PING of a call, if the call used up a number. -/
def Entry.round (E : SessionIo) (e : Entry) : Option PendingPing :=
  if e.after.nextPingId = e.before.nextPingId then none
  else some ⟨e.before.nextPingId, e.now, rttReading E e.before.rttReads⟩

def rounds (E : SessionIo) (h : List Entry) : List PendingPing := h.filterMap (Entry.round E)

def rttLines (out : List Event) : List U64 := out.filterMap fun
  | .line (.rtt us) => some us
  | _ => none

def samplesOf (h : List Entry) : List U64 := h.flatMap fun e => rttLines e.after.out

/-- The PING went out in a call of `h`, and since then the session has been connected and has not
renegotiated. -/
def SentSince (E : SessionIo) (h : List Entry) (s : Session) (ping : PendingPing) : Prop :=
  ∃ pre e post, h = pre ++ e :: post ∧ e.round E = some ping ∧
    ∀ e' ∈ e :: post, e'.before.state = .connected ∧ e'.before.renegotiations = s.renegotiations

structure RttRun (E : SessionIo) (h : List Entry) (s : Session) : Prop where
  numbered : ∀ (k : ℕ) ping, (rounds E h)[k]? = some ping → ping.id = BitVec.ofNat 64 k
  next : s.nextPingId = BitVec.ofNat 64 (rounds E h).length
  table : s.pendingPings.length ≤ maxPendingPings
  waiting : s.terminal = none → ∀ ping ∈ s.pendingPings, s.state = .connected ∧ SentSince E h s ping
  samples : s.rttSamples = (samplesOf h).length
  last : s.lastRttUs = (samplesOf h).getLast?

theorem rttLines_rttCalls (out : List Event) : rttLines (rttCalls out) = rttLines out := by
  induction out with
  | nil => rfl
  | cons e rest ih =>
    unfold rttCalls at ih ⊢
    cases hrtt : e.isRtt with
    | true =>
      rw [List.filter_cons_of_pos hrtt]
      simp only [rttLines, List.filterMap_cons] at ih ⊢
      rw [ih]
    | false =>
      rw [List.filter_cons_of_neg (by simp [hrtt])]
      cases e with
      | line l => cases l <;> first | exact ih | cases hrtt
      | _ => exact ih

theorem rttLines_pings (pings : List Sent) : rttLines (pings.map .sent) = [] := by
  induction pings with
  | nil => rfl
  | cons d rest ih => exact ih

theorem rttLines_sample (sample : Option U64) :
    rttLines (sample.toList.map fun us => .line (.rtt us)) = sample.toList := by
  cases sample <;> rfl

theorem samplesOf_snoc (h : List Entry) (e : Entry) :
    samplesOf (h ++ [e]) = samplesOf h ++ rttLines e.after.out := by
  simp [samplesOf]

theorem rounds_snoc (h : List Entry) (e : Entry) :
    rounds E (h ++ [e]) = rounds E h ++ (e.round E).toList := by
  unfold rounds
  rw [List.filterMap_append]
  cases hr : e.round E <;> simp [hr]

theorem SentSince.snoc {h : List Entry} {e : Entry} {ping : PendingPing} (hs : SentSince E h s ping)
    (hbefore : e.before = s) (hconnected : s.state = .connected)
    (hkept : s'.renegotiations = s.renegotiations) :
    SentSince E (h ++ [e]) s' ping := by
  obtain ⟨pre, e₀, post, rfl, hround, hall⟩ := hs
  refine ⟨pre, e₀, post ++ [e], by simp, hround, ?_⟩
  intro e' he'
  rw [hkept]
  rcases List.mem_append.mp (by simpa using he' : e' ∈ (e₀ :: post) ++ [e]) with he' | he'
  · exact hall e' he'
  · obtain rfl := List.mem_singleton.mp he'
    rw [hbefore]
    exact ⟨hconnected, rfl⟩

theorem SentSince.mem {h : List Entry} {ping : PendingPing} (hs : SentSince E h s ping) :
    ping ∈ rounds E h := by
  obtain ⟨pre, e, post, rfl, hround, -⟩ := hs
  exact List.mem_filterMap.mpr ⟨e, by simp, hround⟩

theorem young_subset {ping : PendingPing} (h : ping ∈ young s T) : ping ∈ s.pendingPings :=
  (List.mem_filter.mp h).1

theorem young_recent {ping : PendingPing} (h : ping ∈ young s T) :
    T < ping.sentMs + pendingPingTtlMs := by
  have hyoung := (List.mem_filter.mp h).2
  simp only [Bool.not_eq_true', decide_eq_false_iff_not, not_le] at hyoung
  exact hyoung.trans_le (timeAfter_le _ _)

theorem young_length : (young s T).length ≤ s.pendingPings.length := List.length_filter_le ..

theorem connected_kept (hs : s.terminal = none) (hconnected : s.state = .connected)
    (hs' : s'.terminal = none) (hgot : s.gotAck = true → s'.gotAck = true)
    (hsent : s.sentAck = true → s'.sentAck = true) :
    s'.state = .connected := by
  obtain ⟨hg, hk⟩ := (state_connected_iff hs).mp hconnected
  exact (state_connected_iff hs').mpr ⟨hgot hg, hsent hk⟩

theorem next_ne (x : U64) : x + 1 ≠ x := by
  intro h
  have hnat := congrArg BitVec.toNat h
  have hlt := x.isLt
  rw [BitVec.toNat_add] at hnat
  change (x.toNat + 1) % 2 ^ 64 = x.toNat at hnat
  omega

theorem ping_due_connected (hl : Live s) {d : Millis} (h : s.ping.due = some d) :
    s.state = .connected := by
  by_contra hne
  have ht := timers_of_not_connected hl.timers (not_connected_of_live hl.terminal hne)
  rw [ht.2.2.2.1] at h
  cases h

theorem samplesOf_quiet {h : List Entry} {e : Entry} (hcalls : rttCalls e.after.out = []) :
    samplesOf (h ++ [e]) = samplesOf h := by
  rw [samplesOf_snoc, ← rttLines_rttCalls, hcalls]
  exact List.append_nil _

theorem RttRun.unnumbered {h : List Entry} {e : Entry} (hr : RttRun E h e.before)
    (hnext : e.after.nextPingId = e.before.nextPingId)
    (htable : e.after.pendingPings.length ≤ e.before.pendingPings.length)
    (hwaiting : e.after.terminal = none → ∀ ping ∈ e.after.pendingPings,
      e.after.state = .connected ∧ SentSince E (h ++ [e]) e.after ping)
    (hsamples : e.after.rttSamples = (samplesOf (h ++ [e])).length)
    (hlast : e.after.lastRttUs = (samplesOf (h ++ [e])).getLast?) :
    RttRun E (h ++ [e]) e.after := by
  have hrounds : rounds E (h ++ [e]) = rounds E h := by
    rw [rounds_snoc]
    simp [Entry.round, hnext]
  refine ⟨?_, ?_, htable.trans hr.table, hwaiting, hsamples, hlast⟩
  · rw [hrounds]
    exact hr.numbered
  · rw [hrounds, hnext]
    exact hr.next

theorem RttRun.numbers {h : List Entry} {e : Entry} {ping : PendingPing}
    (hr : RttRun E h e.before) (hround : e.round E = some ping)
    (hid : ping.id = e.before.nextPingId) (hnext : e.after.nextPingId = e.before.nextPingId + 1) :
    (∀ (k : ℕ) ping', (rounds E (h ++ [e]))[k]? = some ping' → ping'.id = BitVec.ofNat 64 k) ∧
      e.after.nextPingId = BitVec.ofNat 64 (rounds E (h ++ [e])).length := by
  have hrounds : rounds E (h ++ [e]) = rounds E h ++ [ping] := by
    rw [rounds_snoc, hround]
    rfl
  rw [hrounds]
  constructor
  · intro k ping' hk
    rcases Nat.lt_or_ge k (rounds E h).length with hlt | hge
    · rw [List.getElem?_append_left hlt] at hk
      exact hr.numbered k ping' hk
    · rw [List.getElem?_append_right hge] at hk
      obtain ⟨hzero, heq⟩ := List.getElem?_eq_some_iff.mp hk
      have hlast : k = (rounds E h).length := by
        rw [List.length_singleton] at hzero
        omega
      subst hlast
      rw [← heq]
      simpa [hid] using hr.next
  · rw [hnext, List.length_append, List.length_singleton, BitVec.ofNat_add, hr.next]
    rfl

/-- An entry of the table before the call that is in the table after it too. -/
theorem RttRun.still_waiting {h : List Entry} {e : Entry} (hr : RttRun E h e.before)
    (hbefore : e.before.terminal = none) (hafter : e.after.terminal = none)
    (hgot : e.before.gotAck = true → e.after.gotAck = true)
    (hsent : e.before.sentAck = true → e.after.sentAck = true)
    (hsame : e.after.renegotiations = e.before.renegotiations) {ping : PendingPing}
    (hping : ping ∈ e.before.pendingPings) :
    e.after.state = .connected ∧ SentSince E (h ++ [e]) e.after ping := by
  obtain ⟨hconnected, hsince⟩ := hr.waiting hbefore ping hping
  exact ⟨connected_kept hbefore hconnected hafter hgot hsent, hsince.snoc rfl hconnected hsame⟩

theorem step_rttRun {h : List Entry} (hs : Live s ∨ ∃ st, Ended s st)
    (hr : RttRun E h s) (op : Op) :
    RttRun E (h ++ [⟨T, op, s, step C E s op T⟩]) (step C E s op T) := by
  have hpinged := step_pinged (C := C) (E := E) (s := s) (T := T) op
  have hended : (step C E s op T).terminal = none → s.terminal = none := by
    intro hnone
    rcases hs with hl | ⟨st, he⟩
    · exact hl.terminal
    · rw [(step_ended (C := C) (E := E) (T := T) he op).1.terminal] at hnone
      cases hnone
  generalize step C E s op T = s' at hpinged hended ⊢
  cases hpinged with
  | quiet pending kept book got sent calls =>
    have hpending : s'.pendingPings = pending := congrArg RttBook.pending book
    apply RttRun.unnumbered (e := ⟨T, op, s, s'⟩) hr (congrArg RttBook.nextId book)
    · show s'.pendingPings.length ≤ s.pendingPings.length
      rw [hpending]
      rcases kept with rfl | rfl
      · exact le_refl _
      · exact young_length
    · intro hnone ping hping
      have hold : ping ∈ s.pendingPings := by
        rw [show s'.pendingPings = _ from hpending] at hping
        rcases kept with rfl | rfl
        · exact hping
        · exact young_subset hping
      exact RttRun.still_waiting (e := ⟨T, op, s, s'⟩) hr (hended hnone) hnone got sent
        (congrArg RttBook.renegotiations book) hold
    · rw [samplesOf_quiet calls]
      exact (congrArg RttBook.samples book).trans hr.samples
    · rw [samplesOf_quiet calls]
      exact (congrArg RttBook.last book).trans hr.last
  | renegotiated book calls =>
    have hpending : s'.pendingPings = [] := congrArg RttBook.pending book
    apply RttRun.unnumbered (e := ⟨T, op, s, s'⟩) hr (congrArg RttBook.nextId book)
    · show s'.pendingPings.length ≤ s.pendingPings.length
      rw [hpending]
      exact Nat.zero_le _
    · intro _ ping hping
      rw [show s'.pendingPings = _ from hpending] at hping
      cases hping
    · rw [samplesOf_quiet calls]
      exact (congrArg RttBook.samples book).trans hr.samples
    · rw [samplesOf_quiet calls]
      exact (congrArg RttBook.last book).trans hr.last
  | round d pings isPoll wasDue free book got sent calls numbered =>
    have hnext : s'.nextPingId = s.nextPingId + 1 := congrArg RttBook.nextId book
    have hround : (⟨T, op, s, s'⟩ : Entry).round E =
      some ⟨s.nextPingId, T, rttReading E s.rttReads⟩ := by
      apply if_neg
      rw [hnext]
      exact next_ne _
    have hpending : s'.pendingPings = (young s T).filter (·.id ≠ s.nextPingId) ++
        [⟨s.nextPingId, T, rttReading E s.rttReads⟩] := congrArg RttBook.pending book
    have hlines : samplesOf (h ++ [⟨T, op, s, s'⟩]) = samplesOf h := by
      rw [samplesOf_snoc, ← rttLines_rttCalls, calls]
      exact (congrArg (samplesOf h ++ ·) (rttLines_pings pings)).trans (List.append_nil _)
    obtain ⟨hnumbered, hlength⟩ := RttRun.numbers (e := ⟨T, op, s, s'⟩) hr hround rfl hnext
    refine ⟨hnumbered, hlength, ?_, ?_, ?_, ?_⟩
    · rw [hpending, List.length_append, List.length_singleton]
      exact (Nat.add_le_add_right (List.length_filter_le ..) 1).trans free
    · intro hnone ping hping
      have hs₀ := hended hnone
      have hrenegotiations : s'.renegotiations = s.renegotiations :=
        congrArg RttBook.renegotiations book
      rw [hpending] at hping
      rcases List.mem_append.mp hping with hping | hping
      · exact RttRun.still_waiting (e := ⟨T, op, s, s'⟩) hr hs₀ hnone got sent hrenegotiations
          (young_subset (List.mem_of_mem_filter hping))
      · -- the new entry went out in this call, and only a connected session has a PING due
        obtain rfl := List.mem_singleton.mp hping
        have hconnected : s.state = .connected := by
          rcases hs with hl | ⟨st, he⟩
          · exact ping_due_connected hl wasDue
          · rw [he.terminal] at hs₀
            cases hs₀
        refine ⟨connected_kept hs₀ hconnected hnone got sent, h, _, [], rfl, hround, ?_⟩
        intro e' he'
        obtain rfl := List.mem_singleton.mp he'
        exact ⟨hconnected, hrenegotiations.symm⟩
    · rw [hlines]
      exact (congrArg RttBook.samples book).trans hr.samples
    · rw [hlines]
      exact (congrArg RttBook.last book).trans hr.last
  | answered p pingId ping isReceive active type decoded epoch found book got sent calls =>
    have hpending : s'.pendingPings = (young s T).filter (·.id ≠ pingId) :=
      congrArg RttBook.pending book
    have hlines : samplesOf (h ++ [⟨T, op, s, s'⟩]) = samplesOf h ++
      (sampleOf E s ping).toList := by
      rw [samplesOf_snoc, ← rttLines_rttCalls, calls]
      exact congrArg (samplesOf h ++ ·) (rttLines_sample _)
    apply RttRun.unnumbered (e := ⟨T, op, s, s'⟩) hr (congrArg RttBook.nextId book)
    · show s'.pendingPings.length ≤ s.pendingPings.length
      rw [hpending]
      exact (List.length_filter_le ..).trans young_length
    · intro hnone ping' hping'
      rw [show s'.pendingPings = _ from hpending] at hping'
      exact RttRun.still_waiting (e := ⟨T, op, s, s'⟩) hr (hended hnone) hnone got sent
        (congrArg RttBook.renegotiations book) (young_subset (List.mem_of_mem_filter hping'))
    · rw [hlines, List.length_append, ← hr.samples]
      exact congrArg RttBook.samples book
    · rw [hlines, List.getLast?_append, ← hr.last]
      refine (congrArg RttBook.last book).trans ?_
      change (sampleOf E s ping).or s.lastRttUs = _
      cases sampleOf E s ping <;> rfl

theorem create_rttRun (t : Millis) : RttRun E [] (create t) where
  numbered k ping hk := by cases hk
  next := rfl
  table := Nat.zero_le _
  waiting _ ping hping := by cases hping
  samples := rfl
  last := rfl

theorem execution_rttRun {h : List Entry} {t : Millis} (hx : Execution C E h t s) :
    RttRun E h s := by
  induction hx with
  | start t => exact create_rttRun t
  | call op now hx _ ih => exact step_rttRun (execution_live_or_ended hx) ih op

/-! ## The samples of a run -/

theorem RttRun.nodup {h : List Entry} (hr : RttRun E h s) (hfew : (rounds E h).length ≤ 2 ^ 64) :
    ((rounds E h).map PendingPing.id).Nodup := by
  rw [List.nodup_iff_getElem?_ne_getElem?]
  intro i j hij hj heq
  rw [List.length_map] at hj
  rw [List.getElem?_map, List.getElem?_map, List.getElem?_eq_getElem (hij.trans hj),
    List.getElem?_eq_getElem hj] at heq
  have hi := hr.numbered i _ (List.getElem?_eq_getElem (hij.trans hj))
  have hj' := hr.numbered j _ (List.getElem?_eq_getElem hj)
  have hnat := congrArg BitVec.toNat ((hi.symm.trans (Option.some.inj heq)).trans hj')
  rw [BitVec.toNat_ofNat, BitVec.toNat_ofNat, Nat.mod_eq_of_lt (by omega),
    Nat.mod_eq_of_lt (by omega)] at hnat
  omega

theorem Execution.sentSince {h : List Entry} {t : Millis} (hx : Execution C E h t s)
    (hactive : s.active = true) {ping : PendingPing} (hping : ping ∈ s.pendingPings) :
    s.state = .connected ∧ SentSince E h s ping :=
  (execution_rttRun hx).waiting ((active_iff (execution_runControl hx)).mp hactive) ping hping

/-- Where a sample comes from: a PONG of the pinned epoch answers a PING of the connected period. -/
structure SampleOf (E : SessionIo) (pre : List Entry) (e : Entry) (ping : PendingPing)
    (us : U64) : Prop where
  only : rttLines e.after.out = [us]
  pong : ∃ p, e.op = .receive p ∧ p.type = some .pong ∧ decodePing p.payload = .ok ping.id ∧
    e.before.pinned = some p.header.sessionEpoch
  connected : e.before.state = .connected
  sent : SentSince E pre e.before ping
  recent : e.now < ping.sentMs + pendingPingTtlMs
  clock : ∃ clock, E.rttClockUs = some clock ∧ us = clock e.before.rttReads - ping.sentUs
  waited : ping ∈ e.before.pendingPings
  gone : ∀ ping' ∈ e.after.pendingPings, ping'.id ≠ ping.id

theorem mem_rttLines {out : List Event} {us : U64} : us ∈ rttLines out ↔ .line (.rtt us) ∈ out := by
  unfold rttLines
  rw [List.mem_filterMap]
  constructor
  · rintro ⟨e, he, hus⟩
    cases e with
    | line l =>
      cases l with
      | rtt us' =>
        obtain rfl : us' = us := by simpa using hus
        exact he
      | _ => simp at hus
    | _ => simp at hus
  · exact fun h => ⟨_, h, rfl⟩

theorem entry_sampleOf {pre : List Entry} {e : Entry} {t : Millis}
    (hx : Execution C E pre t e.before) (he : e.after = step C E e.before e.op e.now) {us : U64}
    (htold : .line (.rtt us) ∈ e.after.out) :
    ∃ ping, SampleOf E pre e ping us := by
  have hmem := mem_rttLines.mpr htold
  rw [← rttLines_rttCalls] at hmem
  have hpinged := step_pinged (C := C) (E := E) (s := e.before) (T := e.now) e.op
  rw [← he] at hpinged
  cases hpinged with
  | quiet pending kept book got sent calls =>
    rw [calls] at hmem
    cases hmem
  | renegotiated book calls =>
    rw [calls] at hmem
    cases hmem
  | round d pings isPoll wasDue free book got sent calls numbered =>
    rw [calls] at hmem
    have hnone := rttLines_pings pings
    change us ∈ rttLines (pings.map .sent) at hmem
    rw [hnone] at hmem
    cases hmem
  | answered p pingId ping isReceive active type decoded epoch found book got sent calls =>
    have hyoung : ping ∈ young e.before e.now := List.mem_of_find?_eq_some found
    obtain rfl : ping.id = pingId := by simpa using List.find?_some found
    obtain ⟨hconnected, hsince⟩ := hx.sentSince active (young_subset hyoung)
    have hlines : rttLines e.after.out = (sampleOf E e.before ping).toList := by
      rw [← rttLines_rttCalls, calls]
      exact rttLines_sample _
    rw [rttLines_rttCalls, hlines] at hmem
    have hsample : sampleOf E e.before ping = some us := by simpa using hmem
    refine ⟨ping, ?_, ⟨p, isReceive, type, decoded, epoch⟩, hconnected, hsince,
      young_recent hyoung, ?_,
      young_subset hyoung, ?_⟩
    · rw [hlines, hsample]
      rfl
    · unfold sampleOf at hsample
      cases hclock : E.rttClockUs with
      | none => simp [hclock] at hsample
      | some clock =>
        rw [hclock] at hsample
        exact ⟨clock, rfl, (Option.some.inj hsample).symm⟩
    · intro ping' hping'
      rw [show e.after.pendingPings = _ from congrArg RttBook.pending book] at hping'
      simpa using (List.mem_filter.mp hping').2

theorem execution_before {pre post : List Entry} {e : Entry} {t : Millis}
    (hx : Execution C E (pre ++ e :: post) t s) :
    ∃ t' ≤ t, Execution C E pre t' e.before := by
  generalize hall : pre ++ e :: post = all at hx
  induction hx generalizing post with
  | start t => simp at hall
  | @call h t' s' op now hbefore hle ih =>
    rcases List.eq_nil_or_concat post with rfl | ⟨post', last, rfl⟩
    · obtain ⟨rfl, hlast⟩ := List.append_inj' hall rfl
      obtain rfl := (List.cons.inj hlast).1
      exact ⟨t', hle, hbefore⟩
    · rw [List.concat_eq_append, ← List.cons_append, ← List.append_assoc] at hall
      obtain ⟨hfront, -⟩ := List.append_inj' hall rfl
      obtain ⟨t'', hle', hx'⟩ := ih hfront
      exact ⟨t'', hle'.trans hle, hx'⟩

theorem rounds_le {pre : List Entry} (post : List Entry) :
    (rounds E pre).length ≤ (rounds E (pre ++ post)).length := by
  unfold rounds
  rw [List.filterMap_append, List.length_append]
  exact Nat.le_add_right _ _

theorem execution_taken {h : List Entry} {t : Millis} (hx : Execution C E h t s)
    (hfew : (rounds E h).length ≤ 2 ^ 64) :
    ∀ pre e post ping us, h = pre ++ e :: post → SampleOf E pre e ping us →
      ping ∈ rounds E h ∧ ∀ ping' ∈ s.pendingPings, ping'.id ≠ ping.id := by
  induction hx with
  | start t =>
    intro pre e post ping us hsplit
    simp at hsplit
  | @call h t s op now hx hle ih =>
    intro pre e post ping us hsplit hsample
    have hrun := execution_rttRun (hx.call op now hle)
    rcases List.eq_nil_or_concat post with rfl | ⟨post', last, rfl⟩
    · obtain ⟨rfl, hlast⟩ := List.append_inj' hsplit rfl
      obtain rfl := (List.cons.inj hlast).1
      refine ⟨?_, hsample.gone⟩
      rw [rounds_snoc]
      exact List.mem_append_left _ hsample.sent.mem
    · have hold : h = pre ++ e :: post' := by
        have hsplit' : h ++ [⟨now, op, s, step C E s op now⟩] = (pre ++ e :: post') ++ [last] := by
          simpa using hsplit
        exact (List.append_inj' hsplit' rfl).1
      obtain ⟨hmem, hgone⟩ := ih ((rounds_le _).trans hfew) pre e post' ping us hold hsample
      refine ⟨by rw [rounds_snoc]; exact List.mem_append_left _ hmem, ?_⟩
      have hnodup := hrun.nodup hfew
      rw [rounds_snoc] at hnodup
      have hpinged := step_pinged (C := C) (E := E) (s := s) (T := now) op
      intro ping' hping'
      cases hpinged with
      | quiet pending kept book got sent calls =>
        rw [show (step C E s op now).pendingPings =
          pending from congrArg RttBook.pending book] at hping'
        rcases kept with rfl | rfl
        · exact hgone ping' hping'
        · exact hgone ping' (young_subset hping')
      | renegotiated book calls =>
        rw [show (step C E s op now).pendingPings = [] from congrArg RttBook.pending book] at hping'
        cases hping'
      | round d pings isPoll wasDue free book got sent calls numbered =>
        rw [show (step C E s op now).pendingPings = _ from congrArg RttBook.pending book] at hping'
        rcases List.mem_append.mp hping' with hping' | hping'
        · exact hgone ping' (young_subset (List.mem_of_mem_filter hping'))
        · -- the new number is none of the numbers before it
          obtain rfl := List.mem_singleton.mp hping'
          have hround : (⟨now, op, s, step C E s op now⟩ : Entry).round E =
              some ⟨s.nextPingId, now, rttReading E s.rttReads⟩ := by
            apply if_neg
            rw [show (step C E s op now).nextPingId =
              s.nextPingId + 1 from congrArg RttBook.nextId book]
            exact next_ne _
          rw [hround, Option.toList_some, List.map_append, List.map_singleton,
            List.nodup_append] at hnodup
          exact (hnodup.2.2 _ (List.mem_map_of_mem hmem) _ (List.mem_singleton_self _)).symm
      | answered p pingId ping₀ isReceive active type decoded epoch found book got sent calls =>
        rw [show (step C E s op now).pendingPings = _ from congrArg RttBook.pending book] at hping'
        exact hgone ping' (young_subset (List.mem_of_mem_filter hping'))

theorem pong_accepted {p : RxPacket} (htype : p.type = some .pong)
    (haccepted : (receive C E s p T).1 = none) :
    s.active = true ∧ ∃ ping ∈ young s T, decodePing p.payload = .ok ping.id := by
  have hhello : p.type ≠ some .hello := by rw [htype]; decide
  have hack : p.type ≠ some .helloAck := by rw [htype]; decide
  have hreceived := receive_cases (C := C) (E := E) s p T
  generalize receive C E s p T = result at hreceived haccepted
  cases hreceived with
  | inactive hactive => cases haccepted
  | refused u c hactive hcheck => cases haccepted
  | repeated u pass c hactive hcheck hrejected => cases haccepted
  | invalid u w pass c hactive hcheck haccepted' htyped => cases haccepted
  | renegotiated u w pass body hactive hcheck haccepted' htyped hreneg =>
    obtain ⟨-, rfl⟩ := checkEpoch_other hhello hack hcheck
    cases hreneg
  | applied u w pass body hactive hcheck haccepted' htyped hnot =>
    obtain ⟨rfl, -⟩ := checkEpoch_other hhello hack hcheck
    refine ⟨hactive, ?_⟩
    rcases checkType_passed htyped with ⟨pingId, -, -, hdecode, -, hany⟩ | ⟨-, hbody⟩
    · obtain ⟨ping, hping, hid⟩ := List.any_eq_true.mp hany
      exact ⟨ping, hping, by rw [hdecode, of_decide_eq_true hid]⟩
    · unfold checkType at htyped
      rw [htype] at htyped
      dsimp only at htyped
      split at htyped
      · cases htyped
      · split_ifs at htyped
        · cases htyped
          exact absurd rfl (hbody _)
        · cases htyped

/-- What holds of the PINGs, PONGs and samples of a run. -/
structure RttSound (C : SessionConfig) (E : SessionIo) (h : List Entry) (s : Session) : Prop where
  table : s.pendingPings.length ≤ maxPendingPings
  numbers : (rounds E h).length ≤ 2 ^ 64 → ((rounds E h).map PendingPing.id).Nodup
  pings : ∀ e ∈ h, ∀ d, .sent d ∈ e.after.out → d.type = .ping →
    ∃ ping, e.round E = some ping ∧ d.payload = encodePing ping.id
  samples : ∀ pre e post us, h = pre ++ e :: post → .line (.rtt us) ∈ e.after.out →
    ∃ ping, SampleOf E pre e ping us
  once : (rounds E h).length ≤ 2 ^ 64 → ∀ pre e mid e' post ping ping' us us',
    h = pre ++ e :: (mid ++ e' :: post) → SampleOf E pre e ping us →
    SampleOf E (pre ++ e :: mid) e' ping' us' → ping'.id ≠ ping.id
  counted : s.rttSamples = (samplesOf h).length ∧ s.lastRttUs = (samplesOf h).getLast?
  unconnected : (∀ e ∈ h, e.before.state ≠ .connected) → samplesOf h = []
  matched : ∀ pre e post p, h = pre ++ e :: post → e.op = .receive p → p.type = some .pong →
    (receive C E { e.before with out := [] } p e.now).1 = none →
    ∃ ping, decodePing p.payload = .ok ping.id ∧ SentSince E pre e.before ping

theorem entry_pings {e : Entry} (he : e.after = step C E e.before e.op e.now) {d : Sent}
    (hd : .sent d ∈ e.after.out) (htype : d.type = .ping) :
    ∃ ping, e.round E = some ping ∧ d.payload = encodePing ping.id := by
  have hmem : .sent d ∈ rttCalls e.after.out :=
    List.mem_filter.mpr ⟨hd, by simp [Event.isRtt, htype]⟩
  have hpinged := step_pinged (C := C) (E := E) (s := e.before) (T := e.now) e.op
  rw [← he] at hpinged
  cases hpinged with
  | quiet pending kept book got sent calls =>
    rw [calls] at hmem
    cases hmem
  | renegotiated book calls =>
    rw [calls] at hmem
    cases hmem
  | round d' pings isPoll wasDue free book got sent calls numbered =>
    have hround : e.round E =
      some ⟨e.before.nextPingId, e.now, rttReading E e.before.rttReads⟩ := by
      apply if_neg
      rw [show e.after.nextPingId = e.before.nextPingId + 1 from congrArg RttBook.nextId book]
      exact next_ne _
    rw [calls] at hmem
    obtain ⟨d'', hd'', heq⟩ := List.mem_map.mp (show Event.sent d ∈ pings.map .sent from hmem)
    obtain rfl := Event.sent.inj heq
    exact ⟨_, hround, (numbered d'' hd'').2⟩
  | answered p pingId ping isReceive active type decoded epoch found book got sent calls =>
    rw [calls] at hmem
    obtain ⟨us, -, heq⟩ := List.mem_map.mp (show Event.sent d ∈ List.map _ _ from hmem)
    cases heq

/-- In every run each sample answers one PING of the connected period under the pinned epoch, within
five seconds, and as long as the numbers last each PING has its own. -/
theorem rtt_samples_sound {h : List Entry} {t : Millis} (hx : Execution C E h t s) :
    RttSound C E h s := by
  have hrun := execution_rttRun hx
  have hsamples : ∀ pre e post us, h = pre ++ e :: post → .line (.rtt us) ∈ e.after.out →
      ∃ ping, SampleOf E pre e ping us := by
    rintro pre e post us rfl htold
    obtain ⟨t', hbefore, hafter⟩ := execution_call hx
    exact entry_sampleOf hbefore hafter htold
  refine ⟨hrun.table, hrun.nodup, ?_, hsamples, ?_, ⟨hrun.samples, hrun.last⟩, ?_, ?_⟩
  · intro e he d hd htype
    obtain ⟨pre, post, rfl⟩ := List.append_of_mem he
    obtain ⟨t', hbefore, hafter⟩ := execution_call hx
    exact entry_pings hafter hd htype
  · rintro hfew pre e mid e' post ping ping' us us' rfl hsample hsample'
    rw [show pre ++ e :: (mid ++ e' :: post) = (pre ++ e :: mid) ++ e' :: post by simp] at hx hfew
    obtain ⟨t', hle, hbefore⟩ := execution_before hx
    have hgone :=
      (execution_taken hbefore ((rounds_le _).trans hfew) pre e mid ping us rfl hsample).2
    exact hgone ping' hsample'.waited
  · intro hnever
    by_contra hne
    obtain ⟨us, hus⟩ := List.exists_mem_of_ne_nil _ hne
    obtain ⟨e, he, htold⟩ := List.mem_flatMap.mp hus
    obtain ⟨pre, post, rfl⟩ := List.append_of_mem he
    obtain ⟨ping, hsample⟩ := hsamples pre e post us rfl (mem_rttLines.mp htold)
    exact hnever e he hsample.connected
  · rintro pre e post p rfl hop htype haccepted
    obtain ⟨t', hbefore, hafter⟩ := execution_call hx
    obtain ⟨hactive, ping, hping, hdecode⟩ := pong_accepted htype haccepted
    exact ⟨ping, hdecode, (hbefore.sentSince hactive (young_subset hping)).2⟩

/-! ## A run with one sample -/

def clockedIo : SessionIo := { roamIo with rttClockUs := some fun k => BitVec.ofNat 64 (k * 700) }

/-- The answer to the PING with this number. -/
def pongPacket (pingId : U64) (seq : U32) : RxPacket where
  header := headerOf .pong ⟨2, 9, seq⟩ (encodePing pingId)
  payload := encodePing pingId
  source := roamHome

/-- The peer connects, answers the first PING, and answers it once more. -/
def pongOps : List (Op × Millis) :=
  [(.startPunch, 0),
    (.receive (roamPacket .hello (nonceOf 2) 1 roamHome), 10),
    (.receive (roamPacket .helloAck (nonceOf 1) 2 roamHome), 20),
    (.poll, 5020),
    (.receive (pongPacket 0 3), 5050),
    (.receive (pongPacket 0 4), 5060)]

def pongRun : List Entry := trace roamConfig clockedIo (create 0) pongOps
def pongEnd : Session := runOps roamConfig clockedIo (create 0) pongOps

theorem pong_execution : Execution roamConfig clockedIo pongRun 5060 pongEnd :=
  execution_trace (.start 0) pongOps (by decide)

theorem pong_sampled_once : RttSound roamConfig clockedIo pongRun pongEnd ∧
    samplesOf pongRun = [700] ∧
    pongEnd.rttSamples = 1 :=
  ⟨rtt_samples_sound pong_execution, by decide +kernel, by decide +kernel⟩

/-! ## At the end of the clock

A timer that would end past the end of the clock is due at once, so that every poll makes a round of
its own, and the numbers of the PINGs run out. -/

/-- The session connects so early that its idle timer is the last that the clock has room for. -/
def lateConnect : Millis := 2 ^ 64 - 50001
def lateClock : Millis := 2 ^ 64 - 2

def lateConnectOps : List (Op × Millis) :=
  [(.startPunch, lateConnect),
    (.receive (roamPacket .hello (nonceOf 2) 1 roamHome), lateConnect),
    (.receive (roamPacket .helloAck (nonceOf 1) 2 roamHome), lateConnect)]

/-- The session connects and is polled `k` times in the last moments of the clock. -/
def spun : ℕ → Session
  | 0 => runOps roamConfig roamIo (create lateConnect) lateConnectOps
  | k + 1 => step roamConfig roamIo (spun k) .poll lateClock

/-- A session that makes a round at the next poll, after `k` of them. -/
structure Spinning (k : ℕ) (s : Session) : Prop where
  connected : s.state = .connected
  punch : s.punch.isDue lateClock = false
  idle : s.idle.isDue lateClock = false
  ping : s.ping.isDue lateClock = true
  stale : young s lateClock = []
  next : s.nextPingId = BitVec.ofNat 64 k

theorem lateClock_passed : timeAfter lateClock pingIntervalMs ≤ lateClock ∧
    timeAfter lateClock pendingPingTtlMs ≤ lateClock := by decide +kernel

theorem Spinning.poll {k : ℕ} (h : Spinning k s) :
    Spinning (k + 1) (Peer.poll C E s lateClock) := by
  have hactive : s.active = true := by
    unfold Session.active
    rw [h.connected]
    rfl
  have hu := (expireProbes_unpinged (s := s) (T := lateClock)).trans
    ((pollHello_unpinged (C := C) (E := E) (T := lateClock)).trans
      (pollKeepalive_unpinged (C := C) (E := E) (T := lateClock)))
  have hhello := pollHello_timers (C := C) (E := E) (s := expireProbes s lateClock) (T := lateClock)
  have hkeepalive := pollKeepalive_timers (C := C) (E := E) (T := lateClock)
    (s := pollHello C E (expireProbes s lateClock) lateClock)
  have hpunch := hkeepalive.punch.trans hhello.punch
  have hidle := hkeepalive.idle.trans hhello.idle
  have hping := hkeepalive.ping.trans hhello.ping
  have hstate :
    (pollKeepalive C E (pollHello C E (expireProbes s lateClock) lateClock) lateClock).state =
      .connected := pollKeepalive_state.trans (pollHello_state.trans h.connected)
  have hpoll : Peer.poll C E s lateClock =
      pollPing C E (pollKeepalive C E (pollHello C E (expireProbes s lateClock) lateClock)
        lateClock) lateClock := by
    unfold Peer.poll
    rw [if_neg (by simp [hactive])]
    dsimp only
    rw [show (expireProbes s lateClock).punch.isDue lateClock = false from h.punch,
      show (expireProbes s lateClock).idle.isDue lateClock = false from h.idle]
    rfl
  rw [hpoll]
  generalize pollKeepalive C E (pollHello C E (expireProbes s lateClock) lateClock) lateClock = u
    at hu hstate hpunch hidle hping
  have hdue : u.ping.isDue lateClock = true := by
    rw [hping]
    exact h.ping
  have hfree : (young s lateClock).length < maxPendingPings := by
    rw [h.stale]
    decide
  have hticked : Unpinged s (emitTick u .ping u.ping lateClock) :=
    hu.trans (tick_unpinged .ping u.ping)
  have hround := (sendPing_round (C := C) (E := E) hticked hfree).1
  have hrestarted := (sendPing_same (C := C) (E := E) (s := emitTick u .ping u.ping lateClock)
    (T := lateClock)).ping
  have hsame := pollPing_timers (C := C) (E := E) (s := u) (T := lateClock)
  have hconnected : (pollPing C E u lateClock).state = .connected := pollPing_state.trans hstate
  have hsent : pollPing C E u lateClock =
    sendPing C E (emitTick u .ping u.ping lateClock) lateClock := if_pos hdue
  rw [← hsent, h.stale] at hround
  rw [← hsent] at hrestarted
  generalize pollPing C E u lateClock = w at hround hrestarted hsame hconnected
  constructor
  · exact hconnected
  · rw [hsame.punch, hpunch]
    exact h.punch
  · rw [hsame.idle, hidle]
    exact h.idle
  · rw [hrestarted]
    exact decide_eq_true lateClock_passed.1
  · have hpending : w.pendingPings = _ := congrArg RttBook.pending hround
    unfold young expirePings
    dsimp only
    rw [hpending]
    simp [lateClock_passed.2]
  · have hnext : w.nextPingId = s.nextPingId + 1 := congrArg RttBook.nextId hround
    rw [hnext, h.next, BitVec.ofNat_add]
    rfl

theorem Spinning.step {k : ℕ} (h : Spinning k s) :
    Spinning (k + 1) (Peer.step C E s .poll lateClock) := by
  have hclear : Spinning k { s with out := [] } :=
    ⟨h.connected, h.punch, h.idle, h.ping, h.stale, h.next⟩
  exact hclear.poll

theorem spun_spinning (k : ℕ) : Spinning k (spun k) := by
  induction k with
  | zero => constructor <;> decide +kernel
  | succ k ih => exact ih.step

/-- The numbers of the rounds count through the 64 bits. -/
theorem spun_execution (k : ℕ) : ∃ h t, t ≤ lateClock ∧ Execution roamConfig roamIo h t (spun k) ∧
    (rounds roamIo h).map PendingPing.id = (List.range k).map (BitVec.ofNat 64) := by
  induction k with
  | zero =>
    refine ⟨_, lateConnect, by
      decide, execution_trace (.start lateConnect) lateConnectOps (by decide), ?_⟩
    decide +kernel
  | succ k ih =>
    obtain ⟨h, t, ht, hx, hids⟩ := ih
    refine ⟨_, lateClock, le_rfl, .call .poll lateClock hx ht, ?_⟩
    have hround : Entry.round roamIo
      ⟨lateClock, .poll, spun k, step roamConfig roamIo (spun k) .poll lateClock⟩ =
        some ⟨(spun k).nextPingId, lateClock, rttReading roamIo (spun k).rttReads⟩ := by
      apply if_neg
      rw [show (step roamConfig roamIo (spun k) .poll lateClock).nextPingId =
        _ from (spun_spinning (k + 1)).next,
        (spun_spinning k).next, BitVec.ofNat_add]
      exact next_ne _
    unfold rounds at hids ⊢
    rw [List.filterMap_append, List.map_append, hids, List.range_succ, List.map_append]
    simp [hround, (spun_spinning k).next]

/-- After 2 ^ 64 rounds the first number is used again. -/
theorem ping_numbers_repeat : ¬∀ C E h t s, Execution C E h t s →
    ((rounds E h).map PendingPing.id).Nodup := by
  intro hall
  obtain ⟨k, hk⟩ : ∃ k : ℕ, k = 2 ^ 64 + 1 := ⟨_, rfl⟩
  obtain ⟨h, t, -, hx, hids⟩ := spun_execution k
  have hnodup := hall _ _ _ _ _ hx
  rw [hids] at hnodup
  have hzero : 0 ∈ List.range k := List.mem_range.mpr (by omega)
  have hlast : 2 ^ 64 ∈ List.range k := List.mem_range.mpr (by omega)
  have hwraps : BitVec.ofNat 64 0 = BitVec.ofNat 64 (2 ^ 64) := by
    apply BitVec.eq_of_toNat_eq
    simp
  exact absurd (List.inj_on_of_nodup_map hnodup hzero hlast hwraps) (by decide)

end Sangtachi.Peer
