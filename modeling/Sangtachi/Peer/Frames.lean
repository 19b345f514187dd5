import Sangtachi.Peer.Session

/-! # What the parts of a session leave alone

Each part of an operation is described once by the fields it may change. `SameControl`
collects what decides the state, the timers and the closes; the transition functions alone
step outside it. -/
namespace Sangtachi.Peer

open Sangtachi.BigEndian Sangtachi.Packet Sangtachi.Replay Sangtachi.InnerIpv4

variable {C : SessionConfig} {E : SessionIo} {s s' t : Session} {T : Millis}

def Event.sent? : Event → Option Sent
  | .sent d => some d
  | _ => none

/-- The datagrams among the calls of an operation. -/
def sentOf (out : List Event) : List Sent := out.filterMap Event.sent?

@[simp] theorem sentOf_nil : sentOf [] = [] := rfl

@[simp] theorem sentOf_append (a b : List Event) : sentOf (a ++ b) = sentOf a ++ sentOf b := by
  simp [sentOf]

@[simp] theorem sentOf_sent (d : Sent) : sentOf [.sent d] = [d] := rfl

theorem mem_sentOf {out : List Event} {d : Sent} : d ∈ sentOf out ↔ Event.sent d ∈ out := by
  simp only [sentOf, List.mem_filterMap]
  constructor
  · rintro ⟨e, he, hd⟩
    cases e <;> simp only [Event.sent?, Option.some.injEq, reduceCtorEq] at hd
    subst hd
    exact he
  · intro h
    exact ⟨_, h, rfl⟩

def closesOf (out : List Event) : List Sent := (sentOf out).filter (·.type = .close)

@[simp] theorem closesOf_nil : closesOf [] = [] := rfl

@[simp] theorem closesOf_append (a b : List Event) :
    closesOf (a ++ b) = closesOf a ++ closesOf b := by
  simp [closesOf]

@[simp] theorem closesOf_transition (a b : SessionState) : closesOf [.transition a b] = [] := rfl

@[simp] theorem closesOf_line (l : LogLine) : closesOf [.line l] = [] := rfl

@[simp] theorem closesOf_delivered (b : List U8) : closesOf [.delivered b] = [] := rfl

@[simp] theorem closesOf_retired (e : U32) : closesOf [.retired e] = [] := rfl

/-! ## Sending -/

/-- The datagram the next call of `sendPacket` hands over. -/
def nextSent (C : SessionConfig) (E : SessionIo) (s : Session) (type : PacketType)
    (payload bytes : List U8) (dest : Endpoint) : Sent :=
  { type := type
    fields := ⟨C.localPeerId, C.localEpoch, s.nextSeq⟩
    payload := payload
    bytes := bytes
    dest := dest
    ok := E.sendOk s.sends
    verified := isVerified C s dest }

theorem sendPacket_spec (s : Session) (type : PacketType) (payload : List U8) (dest : Endpoint) :
    ∃ counters calls, (sendPacket C E s type payload dest).2 =
        { s with nextSeq := s.nextSeq + 1, sends := s.sends + 1, counters := counters,
                 out := s.out ++ calls } ∧
      ((calls = [] ∧ (sendPacket C E s type payload dest).1 = false ∧
          payloadLengthOk type payload.length = false) ∨
        ∃ bytes, buildPacket type ⟨C.localPeerId, C.localEpoch, s.nextSeq⟩ payload maxDatagram =
            some bytes ∧
          calls = [.sent (nextSent C E s type payload bytes dest)] ∧
          (sendPacket C E s type payload dest).1 = E.sendOk s.sends) := by
  rcases hb : buildPacket type ⟨C.localPeerId, C.localEpoch, s.nextSeq⟩ payload maxDatagram with
    _ | bytes
  · have hlen : payloadLengthOk type payload.length = false := by
      by_contra hok
      rw [buildPacket_eq (by simpa using hok)] at hb
      cases hb
    refine ⟨s.counters, [], ?_, .inl ⟨rfl, ?_, hlen⟩⟩
    · simp only [sendPacket, hb, List.append_nil]
    · simp only [sendPacket, hb]
  · cases hok : E.sendOk s.sends
    · refine ⟨(s.count .txErrSend).counters, [.sent (nextSent C E s type payload bytes dest)], ?_,
        .inr ⟨bytes, rfl, rfl, ?_⟩⟩
      · simp only [sendPacket, hb, hok, Bool.false_eq_true, if_false, nextSent]
        rfl
      · simp only [sendPacket, hb, hok, Bool.false_eq_true, if_false]
    · refine ⟨s.counters, [.sent (nextSent C E s type payload bytes dest)], ?_,
        .inr ⟨bytes, rfl, rfl, ?_⟩⟩
      · simp only [sendPacket, hb, hok, if_true, nextSent]
        rfl
      · simp only [sendPacket, hb, hok, if_true]

/-! ## The control part -/

/-- The flags, the terminal state, the timers, the renegotiations and the closes are as they were.
-/
structure SameControl (s s' : Session) : Prop where
  got_ack : s'.gotAck = s.gotAck
  sent_ack : s'.sentAck = s.sentAck
  terminal : s'.terminal = s.terminal
  failure : s'.failure = s.failure
  punch_started : s'.punchStarted = s.punchStarted
  hello : s'.hello = s.hello
  punch : s'.punch = s.punch
  keepalive : s'.keepalive = s.keepalive
  ping : s'.ping = s.ping
  idle : s'.idle = s.idle
  renegotiations : s'.renegotiations = s.renegotiations
  last_renegotiation : s'.lastRenegotiation = s.lastRenegotiation
  closes : closesOf s'.out = closesOf s.out

theorem SameControl.refl (s : Session) : SameControl s s := by
  constructor <;> rfl

theorem SameControl.trans (h : SameControl s s') (k : SameControl s' t) : SameControl s t where
  got_ack := k.got_ack.trans h.got_ack
  sent_ack := k.sent_ack.trans h.sent_ack
  terminal := k.terminal.trans h.terminal
  failure := k.failure.trans h.failure
  punch_started := k.punch_started.trans h.punch_started
  hello := k.hello.trans h.hello
  punch := k.punch.trans h.punch
  keepalive := k.keepalive.trans h.keepalive
  ping := k.ping.trans h.ping
  idle := k.idle.trans h.idle
  renegotiations := k.renegotiations.trans h.renegotiations
  last_renegotiation := k.last_renegotiation.trans h.last_renegotiation
  closes := k.closes.trans h.closes

theorem sendPacket_same {type : PacketType} (ht : type ≠ .close) (payload : List U8)
    (dest : Endpoint) : SameControl s (sendPacket C E s type payload dest).2 := by
  obtain ⟨counters, calls, hs, hcalls⟩ := sendPacket_spec (C := C) (E := E) s type payload dest
  rw [hs]
  constructor
  case closes =>
    rcases hcalls with ⟨rfl, -, -⟩ | ⟨bytes, -, rfl, -⟩
    · simp
    · simp [closesOf, nextSent, ht]
  all_goals rfl

theorem sendEach_same {type : PacketType} (ht : type ≠ .close) (payload : List U8)
    (dests : List Endpoint) : SameControl s (sendEach C E s type payload dests) := by
  induction dests generalizing s with
  | nil => exact .refl s
  | cons e rest ih => exact (sendPacket_same ht payload e).trans ih

theorem sendToPeer_same {type : PacketType} (ht : type ≠ .close) (payload : List U8) :
    SameControl s (sendToPeer C E s type payload) := by
  unfold sendToPeer
  split
  · exact sendPacket_same ht payload _
  · exact sendEach_same ht payload _

theorem sendUntilFailure_same (inner : List U8) (dests : List Endpoint) :
    SameControl s (sendUntilFailure C E s inner dests).2 := by
  induction dests generalizing s with
  | nil => exact .refl s
  | cons e rest ih =>
    have hsend :=
      sendPacket_same (C := C) (E := E) (s := s) (show PacketType.data ≠ .close by decide)
      inner e
    unfold sendUntilFailure
    split
    · next heq => rwa [heq] at hsend
    · next heq =>
      rw [heq] at hsend
      exact hsend.trans ih

theorem sendData_same (inner : List U8) : SameControl s (sendData C E s inner).2 := by
  unfold sendData
  split
  · exact sendPacket_same (by decide) inner _
  · exact sendUntilFailure_same inner _

theorem sendHelloRound_same : SameControl s (sendHelloRound C E s) :=
  sendEach_same (by decide) _ _

theorem count_same (c : Counter) : SameControl s (s.count c) := by
  constructor <;> rfl

theorem emit_same {e : Event} (he : closesOf [e] = []) : SameControl s (s.emit e) := by
  constructor
  case closes => simp only [Session.emit, closesOf_append, he, List.append_nil]
  all_goals rfl

theorem refillBudget_same : SameControl s (refillBudget s T) := by
  unfold refillBudget
  split
  · constructor <;> rfl
  · exact .refl s

theorem spendFor_same (dest : Endpoint) : SameControl s (spendFor C s dest T).2 := by
  unfold spendFor
  split
  · exact .refl s
  · refine (refillBudget_same (s := s) (T := T)).trans ?_
    dsimp only
    split <;> constructor <;> rfl

theorem expireProbes_same : SameControl s (expireProbes s T) := by
  constructor <;> rfl

/-- Answering a HELLO may set `sentAck` and nothing else of the control part. -/
theorem sendHelloAck_same (echo : Nonce) (dest : Endpoint) :
    ∃ sent, (s.sentAck = true → sent = true) ∧
      SameControl { s with sentAck := sent } (sendHelloAck C E s echo dest T) := by
  have hspend := spendFor_same (C := C) (s := s) (T := T) dest
  unfold sendHelloAck
  split
  · next heq =>
    rw [heq] at hspend
    exact ⟨s.sentAck, id, hspend⟩
  · next s₁ heq =>
    rw [heq] at hspend
    have hsend := sendPacket_same (C := C) (E := E) (s := s₁) 
      (show PacketType.helloAck ≠ .close by decide)
      (encodeHello ⟨echo, C.localVirtualIp⟩) dest
    split
    · next s₂ heq' =>
      rw [heq'] at hsend
      have h := hspend.trans hsend
      exact ⟨true, fun _ => rfl, { h with sent_ack := rfl }⟩
    · next heq' =>
      rw [heq'] at hsend
      exact ⟨s.sentAck, id, (hspend.trans hsend).trans (count_same _)⟩

theorem startPathProbe_same (source : Endpoint) :
    SameControl s (startPathProbe C E s source T) := by
  refine (expireProbes_same (s := s) (T := T)).trans ?_
  unfold startPathProbe
  dsimp only
  split
  · exact .refl _
  split
  · exact count_same _
  split
  · constructor <;> rfl
  · next nonce _ =>
    have hspend := spendFor_same (C := C)
      (s := { expireProbes s T with draws := (expireProbes s T).draws + 1 }) (T := T) source
    have hdraw : SameControl (expireProbes s T)
        { expireProbes s T with draws := (expireProbes s T).draws + 1 } := by
      constructor <;> rfl
    refine hdraw.trans ?_
    split
    · next heq => rwa [heq] at hspend
    · next heq =>
      rw [heq] at hspend
      refine (hspend.trans ?_).trans (sendPacket_same (by decide) _ _)
      constructor <;> rfl

theorem expirePings_same : SameControl s (expirePings s T) := by
  constructor <;> rfl

theorem readRttClock_same : SameControl s (readRttClock E s).2 := by
  unfold readRttClock
  split <;> constructor <;> rfl

theorem recordPacket_same (seq : U32) : SameControl s (recordPacket s seq).2 := by
  constructor <;> rfl

theorem markAnswered_same (i : ℕ) : SameControl s (markAnswered s i) := by
  constructor <;> rfl

theorem learn_same (source : Endpoint) : SameControl s (learn s source) := by
  unfold learn
  split
  · exact .refl s
  · constructor
    case closes => simp [Session.emit, Session.count]
    all_goals rfl

theorem learnSource_same (p : RxPacket) (pass : EpochPass) (d : ReplayDecision) :
    SameControl s (learnSource C s p pass d).2 := by
  unfold learnSource
  split
  · next i =>
    refine (markAnswered_same i).trans ?_
    dsimp only
    split
    · exact learn_same _
    · exact .refl _
  · split_ifs
    · exact learn_same _
    · exact .refl s
    · exact .refl s

theorem checkType_same (p : RxPacket) : SameControl s (checkType C s p T).1 := by
  unfold checkType
  split
  · split
    · exact .refl s
    · split <;> exact .refl s
  · split <;> exact .refl s
  · split
    · exact .refl s
    · dsimp only
      split <;> exact expirePings_same
  · split <;> exact .refl s
  · split <;> exact .refl s
  · exact .refl s

theorem takePong_same (pingId : U64) : SameControl s (takePong E s pingId) := by
  have hread := readRttClock_same (E := E) (s := s)
  unfold takePong
  dsimp only
  split
  · apply hread.trans
    constructor
    case closes => simp [Session.emit]
    all_goals rfl
  · constructor <;> rfl

theorem takeRoster_same (r : Roster) : SameControl s (takeRoster s r) := by
  unfold takeRoster
  split
  · exact .refl s
  · constructor
    case closes => simp [Session.emit]
    all_goals rfl

theorem sendPong_same (pingId : U64) (dest : Endpoint) :
    SameControl s (sendPong C E s pingId dest T) := by
  have hspend := spendFor_same (C := C) (s := s) (T := T) dest
  unfold sendPong
  split
  · next heq => rwa [heq] at hspend
  · next heq =>
    rw [heq] at hspend
    exact hspend.trans (sendPacket_same (by decide) _ _)

theorem actOther_same (p : RxPacket) (body : Body) :
    SameControl s (actOther C E s p T body) := by
  cases body with
  | bare => exact .refl s
  | data =>
    simp only [actOther]
    split
    · exact emit_same rfl
    · exact .refl s
  | ping pingId => exact sendPong_same _ _
  | pong pingId => exact takePong_same _
  | close reason => exact .refl s
  | roster r => exact takeRoster_same _

/-- The action of a packet may set the two flags and nothing else of the control part. -/
theorem act_same (p : RxPacket) (pass : EpochPass) (body : Body) (before : SessionState) :
    ∃ got sent, (s.gotAck = true → got = true) ∧ (s.sentAck = true → sent = true) ∧
      SameControl { s with gotAck := got, sentAck := sent }
        (act C E s p pass body before T) := by
  unfold act
  split
  · obtain ⟨sent, hsent, h⟩ := sendHelloAck_same (C := C) (E := E) (s := s) (T := T) _ _
    exact ⟨s.gotAck, sent, id, hsent, h⟩
  · exact ⟨s.gotAck, s.sentAck, id, id, .refl s⟩
  · split
    · exact ⟨s.gotAck, s.sentAck, id, id, count_same _⟩
    · exact ⟨true, s.sentAck, fun _ => rfl, id, .refl _⟩
  · exact ⟨s.gotAck, s.sentAck, id, id, actOther_same _ _⟩

end Sangtachi.Peer
