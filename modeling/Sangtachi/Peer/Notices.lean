import Sangtachi.Peer.Replies

/-! # What a session reports

Transitions, deliveries, retired epochs and the DATA it sends are the calls that others act on.
Every part of an operation says which of them it makes; most make none. -/
namespace Sangtachi.Peer

open Sangtachi.BigEndian Sangtachi.Packet Sangtachi.Replay Sangtachi.InnerIpv4

variable {C : SessionConfig} {E : SessionIo} {s s' t : Session} {T : Millis}

def Event.isNotice : Event → Bool
  | .transition _ _ | .delivered _ | .retired _ => true
  | .sent d => d.type = .data
  | .line _ => false

def noticesOf (out : List Event) : List Event := out.filter Event.isNotice

@[simp] theorem noticesOf_nil : noticesOf [] = [] := rfl

@[simp] theorem noticesOf_append (a b : List Event) :
    noticesOf (a ++ b) = noticesOf a ++ noticesOf b :=
  List.filter_append ..

theorem noticesOf_sent {d : Sent} (h : d.type ≠ .data) : noticesOf [.sent d] = [] := by
  simp [noticesOf, Event.isNotice, h]

@[simp] theorem noticesOf_line (l : LogLine) : noticesOf [.line l] = [] := rfl

@[simp] theorem noticesOf_transition (a b : SessionState) :
    noticesOf [.transition a b] = [.transition a b] := rfl

@[simp] theorem noticesOf_delivered (inner : List U8) :
    noticesOf [.delivered inner] = [.delivered inner] := rfl

theorem noticesOf_retired (epochs : List U32) :
    noticesOf (epochs.map .retired) = epochs.map .retired := by
  apply List.filter_eq_self.mpr
  intro e he
  obtain ⟨epoch, -, rfl⟩ := List.mem_map.mp he
  rfl

theorem mem_noticesOf {out : List Event} {e : Event} : e ∈ noticesOf out ↔
      e ∈ out ∧ e.isNotice = true :=
  List.mem_filter

/-- The window, the epoch and the end are as they were. -/
structure Held (s s' : Session) : Prop where
  window : s'.window = s.window
  pinned : s'.pinned = s.pinned
  terminal : s'.terminal = s.terminal
  since : s'.terminalSince = s.terminalSince

theorem Held.refl (s : Session) : Held s s := ⟨rfl, rfl, rfl, rfl⟩

theorem Held.trans (h : Held s s') (k : Held s' t) : Held s t where
  window := k.window.trans h.window
  pinned := k.pinned.trans h.pinned
  terminal := k.terminal.trans h.terminal
  since := k.since.trans h.since

/-- Besides, nothing that others act on is reported. -/
structure Unnoticed (s s' : Session) : Prop extends Held s s' where
  notices : noticesOf s'.out = noticesOf s.out

theorem Unnoticed.refl (s : Session) : Unnoticed s s := ⟨.refl s, rfl⟩

theorem Unnoticed.trans (h : Unnoticed s s') (k : Unnoticed s' t) : Unnoticed s t :=
  ⟨h.toHeld.trans k.toHeld, k.notices.trans h.notices⟩

/-! ## Sending -/

theorem sendPacket_unnoticed {type : PacketType} (ht : type ≠ .data) (payload : List U8)
    (dest : Endpoint) :
    Unnoticed s (sendPacket C E s type payload dest).2 := by
  obtain ⟨counters, calls, hs, hcalls⟩ := sendPacket_spec (C := C) (E := E) s type payload dest
  rw [hs]
  refine ⟨⟨rfl, rfl, rfl, rfl⟩, ?_⟩
  rcases hcalls with ⟨rfl, -, -⟩ | ⟨bytes, -, rfl, -⟩
  · simp
  · rw [noticesOf_append, noticesOf_sent (by exact ht), List.append_nil]

theorem sendEach_unnoticed {type : PacketType} (ht : type ≠ .data) (payload : List U8)
    (dests : List Endpoint) :
    Unnoticed s (sendEach C E s type payload dests) := by
  induction dests generalizing s with
  | nil => exact .refl s
  | cons e rest ih => exact (sendPacket_unnoticed ht payload e).trans ih

theorem sendToPeer_unnoticed {type : PacketType} (ht : type ≠ .data) (payload : List U8) :
    Unnoticed s (sendToPeer C E s type payload) := by
  unfold sendToPeer
  split
  · exact sendPacket_unnoticed ht payload _
  · exact sendEach_unnoticed ht payload _

/-- Some datagrams of one inner packet went out, and nothing else is reported. -/
def SentData (inner : List U8) (s s' : Session) : Prop :=
  Held s s' ∧ ∃ sent : List Sent, noticesOf s'.out = noticesOf s.out ++ sent.map .sent ∧
    ∀ d ∈ sent, d.type = .data ∧ d.payload = inner

theorem sendPacket_sentData (inner : List U8) (dest : Endpoint) :
    SentData inner s (sendPacket C E s .data inner dest).2 := by
  obtain ⟨counters, calls, hs, hcalls⟩ := sendPacket_spec (C := C) (E := E) s .data inner dest
  rw [hs]
  refine ⟨⟨rfl, rfl, rfl, rfl⟩, ?_⟩
  rcases hcalls with ⟨rfl, -, -⟩ | ⟨bytes, -, rfl, -⟩
  · exact ⟨[], by simp, fun d hd => (by cases hd)⟩
  · refine ⟨[nextSent C E s .data inner bytes dest], by rw [noticesOf_append]; rfl, fun d hd => ?_⟩
    obtain rfl := List.mem_singleton.mp hd
    exact ⟨rfl, rfl⟩

theorem SentData.trans {inner : List U8} (h : SentData inner s s') (k : SentData inner s' t) :
    SentData inner s t := by
  obtain ⟨hheld, sent, hsent, hall⟩ := h
  obtain ⟨kheld, sent', hsent', hall'⟩ := k
  refine ⟨hheld.trans kheld, sent ++ sent', ?_, fun d hd => ?_⟩
  · rw [hsent', hsent, List.map_append, List.append_assoc]
  · exact (List.mem_append.mp hd).elim (hall d) (hall' d)

theorem sendUntilFailure_sentData (inner : List U8) (dests : List Endpoint) :
    SentData inner s (sendUntilFailure C E s inner dests).2 := by
  induction dests generalizing s with
  | nil => exact ⟨.refl s, [], by simp [sendUntilFailure], fun d hd => (by cases hd)⟩
  | cons e rest ih =>
    have hsend := sendPacket_sentData (C := C) (E := E) (s := s) inner e
    unfold sendUntilFailure
    split
    · next heq => rwa [heq] at hsend
    · next heq =>
      rw [heq] at hsend
      exact hsend.trans ih

theorem sendData_sentData (inner : List U8) : SentData inner s (sendData C E s inner).2 := by
  unfold sendData
  split
  · exact sendPacket_sentData inner _
  · exact sendUntilFailure_sentData inner _

theorem sendHelloRound_unnoticed : Unnoticed s (sendHelloRound C E s) :=
  sendEach_unnoticed (by decide) _ _

theorem Spend.unnoticed {dest : Endpoint} {granted : Bool} (h : Spend C s dest T granted s') :
    Unnoticed s s' := by
  obtain ⟨counters, milli, stamp, rfl⟩ := h.updates
  exact ⟨⟨rfl, rfl, rfl, rfl⟩, rfl⟩

theorem SentOne.unnoticed {type : PacketType} {payload : List U8} {dest : Endpoint}
    (ht : type ≠ .data) (h : SentOne C E s type payload dest s') : Unnoticed s s' := by
  obtain ⟨counters, bytes, -⟩ := h
  refine ⟨⟨rfl, rfl, rfl, rfl⟩, ?_⟩
  rw [noticesOf_append, noticesOf_sent (by exact ht), List.append_nil]

theorem sendHelloAck_unnoticed (echo : Nonce) (dest : Endpoint) :
    Unnoticed s (sendHelloAck C E s echo dest T) := by
  rcases sendHelloAck_cases (C := C)
    (E := E) s echo dest T with hspend | ⟨u, v, counters, hspend, hsent, heq⟩
  · exact hspend.unnoticed
  · rw [heq]
    exact (hspend.unnoticed.trans (hsent.unnoticed (by decide))).trans ⟨⟨rfl, rfl, rfl, rfl⟩, rfl⟩

theorem sendPong_unnoticed (pingId : U64) (dest : Endpoint) :
    Unnoticed s (sendPong C E s pingId dest T) := by
  rcases sendPong_cases (C := C) (E := E) s pingId dest T with hspend | ⟨u, hspend, hsent⟩
  · exact hspend.unnoticed
  · exact hspend.unnoticed.trans (hsent.unnoticed (by decide))

theorem expireProbes_unnoticed : Unnoticed s (expireProbes s T) := ⟨⟨rfl, rfl, rfl, rfl⟩, rfl⟩

theorem startPathProbe_unnoticed (source : Endpoint) :
    Unnoticed s (startPathProbe C E s source T) := by
  refine (expireProbes_unnoticed (s := s) (T := T)).trans ?_
  unfold startPathProbe
  dsimp only
  split
  · exact .refl _
  split
  · exact ⟨⟨rfl, rfl, rfl, rfl⟩, rfl⟩
  split
  · exact ⟨⟨rfl, rfl, rfl, rfl⟩, rfl⟩
  · have hspend := (spendFor_spend (C := C)
      { expireProbes s T with draws := (expireProbes s T).draws + 1 } source T).unnoticed
    have hdraw : Unnoticed
      (expireProbes s T) { expireProbes s T with draws := (expireProbes s T).draws + 1 } :=
      ⟨⟨rfl, rfl, rfl, rfl⟩, rfl⟩
    refine hdraw.trans ?_
    split
    · next heq => rwa [heq] at hspend
    · next heq =>
      rw [heq] at hspend
      refine (hspend.trans ?_).trans (sendPacket_unnoticed (by decide) _ _)
      exact ⟨⟨rfl, rfl, rfl, rfl⟩, rfl⟩

theorem sendKeepalive_unnoticed : Unnoticed s (sendKeepalive C E s T) :=
  (sendToPeer_unnoticed (by decide) []).trans ⟨⟨rfl, rfl, rfl, rfl⟩, rfl⟩

theorem readRttClock_unnoticed : Unnoticed s (readRttClock E s).2 := by
  unfold readRttClock
  split <;> exact ⟨⟨rfl, rfl, rfl, rfl⟩, rfl⟩

theorem sendPing_unnoticed : Unnoticed s (sendPing C E s T) := by
  have hexpire : Unnoticed s (expirePings { s with ping := arm T pingIntervalMs } T) :=
    ⟨⟨rfl, rfl, rfl, rfl⟩, rfl⟩
  unfold sendPing
  dsimp only
  split
  · exact hexpire
  · refine hexpire.trans ?_
    generalize expirePings { s with ping := arm T pingIntervalMs } T = u
    have hread := readRttClock_unnoticed (E := E) (s := { u with nextPingId := u.nextPingId + 1 })
    generalize readRttClock E { u with nextPingId := u.nextPingId + 1 } = r at hread ⊢
    have hkept : Unnoticed u { r.2 with
        pendingPings :=
          r.2.pendingPings.filter (·.id ≠ u.nextPingId) ++ [⟨u.nextPingId, T, r.1⟩] } :=
      ⟨⟨hread.window, hread.pinned, hread.terminal, hread.since⟩, hread.notices⟩
    exact hkept.trans (sendToPeer_unnoticed (by decide) _)

theorem sendClose_unnoticed (reason : CloseReason) : Unnoticed s (sendClose C E s reason) := by
  unfold sendClose
  split
  · exact .refl s
  · exact sendPacket_unnoticed (by decide) _ _

/-! ## Transitions -/

theorem enterConnected_unnoticed : Unnoticed s (enterConnected C E s T) := by
  unfold enterConnected
  refine Unnoticed.trans ?_ sendKeepalive_unnoticed
  exact ⟨⟨rfl, rfl, rfl, rfl⟩, rfl⟩

/-- How one call moved the state: not at all, or by one reported transition. -/
def Moved (before after : SessionState) (notices : List Event) : Prop :=
  (after = before ∧ notices = []) ∨ (after ≠ before ∧ notices = [.transition before after])

theorem enterConnected_state : (enterConnected C E s T).state = s.state := by
  have h := sendToPeer_same (C := C) (E := E) (s := { s with
    hello := { s.hello with due := none }, punch := { s.punch with due := none }
    lossBaseline := some s.window.position, lossAccepted := 0
    idle := arm T idleTimeoutMs, ping := arm T pingIntervalMs })
      (show PacketType.keepalive ≠ .close by decide) []
  exact state_congr h.terminal h.got_ack h.sent_ack

theorem settle_notices (before : SessionState) :
    (settle C E s before T).state = s.state ∧ Held s (settle C E s before T) ∧
      ∃ moved, noticesOf (settle C E s before T).out = noticesOf s.out ++ moved ∧
        Moved before s.state moved := by
  unfold settle
  dsimp only
  by_cases hsame : s.state = before
  · rw [if_pos hsame]
    exact ⟨rfl, .refl s, [], by simp, .inl ⟨hsame, rfl⟩⟩
  · rw [if_neg hsame]
    have hentered : ∀ u : Session, Unnoticed s u → u.state = s.state →
        (notify u before s.state).state = s.state ∧ Held s (notify u before s.state) ∧
          ∃ moved, noticesOf (notify u before s.state).out = noticesOf s.out ++ moved ∧
            Moved before s.state moved := by
      intro u hu hstate
      refine ⟨hstate, ⟨hu.window, hu.pinned, hu.terminal, hu.since⟩,
        [.transition before s.state], ?_,
        .inr ⟨hsame, rfl⟩⟩
      simp [notify, Session.emit, hu.notices]
    by_cases hconnected : s.state = .connected
    · rw [if_pos hconnected]
      exact hentered _ enterConnected_unnoticed enterConnected_state
    · rw [if_neg hconnected]
      exact hentered s (.refl s) rfl

theorem enterTerminal_notices (st : SessionState) :
    (enterTerminal s st T).state = st ∧ (enterTerminal s st T).window = s.window ∧
      (enterTerminal s st T).pinned = s.pinned ∧ (enterTerminal s st T).terminalSince = some T ∧
      noticesOf (enterTerminal s st T).out = noticesOf s.out ++ [.transition s.state st] := by
  refine ⟨rfl, rfl, rfl, rfl, ?_⟩
  simp [enterTerminal, notify, Session.emit, stopTimers]

/-! ## Receiving -/

theorem learn_unnoticed (source : Endpoint) : Unnoticed s (learn s source) := by
  unfold learn
  split
  · exact .refl s
  · refine ⟨⟨rfl, rfl, rfl, rfl⟩, ?_⟩
    simp [Session.emit, Session.count]

theorem learnSource_unnoticed (p : RxPacket) (pass : EpochPass) (d : ReplayDecision) :
    Unnoticed s (learnSource C s p pass d).2 := by
  unfold learnSource
  split
  · next i =>
    have hmarked : Unnoticed s (markAnswered s i) := ⟨⟨rfl, rfl, rfl, rfl⟩, rfl⟩
    dsimp only
    split
    · exact hmarked.trans (learn_unnoticed _)
    · exact hmarked
  · split_ifs
    · exact learn_unnoticed _
    · exact .refl s
    · exact .refl s

theorem expirePings_unnoticed : Unnoticed s (expirePings s T) := ⟨⟨rfl, rfl, rfl, rfl⟩, rfl⟩

theorem checkType_unnoticed (p : RxPacket) : Unnoticed s (checkType C s p T).1 := by
  unfold checkType
  split
  · split
    · exact .refl s
    · split <;> exact .refl s
  · split <;> exact .refl s
  · split
    · exact .refl s
    · dsimp only
      split <;> exact expirePings_unnoticed
  · split <;> exact .refl s
  · split <;> exact .refl s
  · exact .refl s

theorem takePong_unnoticed (pingId : U64) : Unnoticed s (takePong E s pingId) := by
  have hread := readRttClock_unnoticed (E := E) (s := s)
  unfold takePong
  dsimp only
  split
  · refine hread.trans ⟨⟨rfl, rfl, rfl, rfl⟩, ?_⟩
    simp [Session.emit]
  · exact ⟨⟨rfl, rfl, rfl, rfl⟩, rfl⟩

theorem takeRoster_unnoticed (r : Roster) : Unnoticed s (takeRoster s r) := by
  unfold takeRoster
  split
  · exact .refl s
  · refine ⟨⟨rfl, rfl, rfl, rfl⟩, ?_⟩
    simp [Session.emit]

def deliveryOf (E : SessionIo) (p : RxPacket) (pass : EpochPass) (body : Body) : List Event :=
  if pass = .other ∧ body = .data ∧ E.dataSink = true then [.delivered p.payload] else []

/-- The action of a packet keeps the window, the epoch and the end, and delivers DATA at most. -/
theorem act_notices (p : RxPacket) (pass : EpochPass) (body : Body) (before : SessionState) :
    Held s (act C E s p pass body before T) ∧
      noticesOf (act C E s p pass body before T).out = noticesOf s.out ++
        deliveryOf E p pass body := by
  have quiet : ∀ {u : Session} {pass body}, deliveryOf E p pass body = [] → Unnoticed s u →
      Held s u ∧ noticesOf u.out = noticesOf s.out ++ deliveryOf E p pass body := by
    intro u pass body hnone hu
    refine ⟨hu.toHeld, ?_⟩
    rw [hnone, List.append_nil]
    exact hu.notices
  cases pass with
  | hello h renegotiated =>
    exact quiet (by simp [deliveryOf]) (sendHelloAck_unnoticed h.nonce p.source)
  | ack h probe =>
    cases probe with
    | some i => exact quiet (by simp [deliveryOf]) (.refl s)
    | none =>
      refine quiet (by simp [deliveryOf]) ?_
      unfold act
      dsimp only
      split
      · exact ⟨⟨rfl, rfl, rfl, rfl⟩, rfl⟩
      · exact ⟨⟨rfl, rfl, rfl, rfl⟩, rfl⟩
  | other =>
    cases body with
    | bare => exact quiet (by simp [deliveryOf]) (.refl s)
    | close reason => exact quiet (by simp [deliveryOf]) (.refl s)
    | ping pingId => exact quiet (by simp [deliveryOf]) (sendPong_unnoticed pingId p.source)
    | pong pingId => exact quiet (by simp [deliveryOf]) (takePong_unnoticed pingId)
    | roster r => exact quiet (by simp [deliveryOf]) (takeRoster_unnoticed r)
    | data =>
      unfold act actOther deliveryOf
      dsimp only
      by_cases hsink : E.dataSink = true
      · rw [if_pos hsink]
        refine ⟨⟨rfl, rfl, rfl, rfl⟩, ?_⟩
        simp [Session.emit, hsink]
      · rw [if_neg hsink]
        exact ⟨.refl s, by simp [hsink]⟩

theorem raiseSource_unnoticed (source : Endpoint) (probeSource : Bool) :
    Unnoticed s (raiseSource C E s source probeSource T) := by
  unfold raiseSource
  split
  · exact startPathProbe_unnoticed source
  · exact .refl s

theorem dropWithoutSink_unnoticed (body : Body) : Unnoticed s (dropWithoutSink E s body).2 := by
  unfold dropWithoutSink
  split <;> exact ⟨⟨rfl, rfl, rfl, rfl⟩, rfl⟩

theorem pin_pinned (epoch : U32) :
    (pin s epoch).pinned = some (s.pinned.getD epoch) ∧ (pin s epoch).window = s.window ∧
      (pin s epoch).terminal = s.terminal ∧ (pin s epoch).terminalSince = s.terminalSince ∧
      (pin s epoch).out = s.out := by
  unfold pin
  cases hp : s.pinned with
  | none => exact ⟨rfl, rfl, rfl, rfl, rfl⟩
  | some old => exact ⟨hp, rfl, rfl, rfl, rfl⟩

/-! ## The ways a reception can go -/

/-- The epoch check refuses the packet, passes it on, or renegotiates; expired probes may go. -/
inductive EpochChecked (C : SessionConfig) (E : SessionIo) (s : Session) (p : RxPacket)
    (T : Millis) :
    Session × Except Counter EpochPass → Prop where
  | refused (u : Session) (c : Counter) : u = s ∨ u = expireProbes s T →
    EpochChecked C E s p T (u, .error c)
  | passed (u : Session) (pass : EpochPass) : u = s ∨ u = expireProbes s T →
    pass.renegotiated = false →
      s.pinned = none ∨ s.pinned = some p.header.sessionEpoch →
      (p.type ≠ some .hello → p.type ≠ some .helloAck → s.pinned = some p.header.sessionEpoch) →
      EpochChecked C E s p T (u, .ok pass)
  | renegotiated (h : HelloPayload) (old : U32) : p.type = some .hello → s.pinned = some old →
      p.header.sessionEpoch ≠ old →
      (∀ last, s.lastRenegotiation = some last → timeAfter last minRenegIntervalMs ≤ T) →
      s.renegotiations < maxRenegotiations →
      EpochChecked C E s p T (renegotiate C E s p h.nonce T, .ok (.hello h true))

theorem checkEpoch_cases (s : Session) (p : RxPacket) (T : Millis) :
    EpochChecked C E s p T (checkEpoch C E s p T) := by
  unfold checkEpoch
  split
  case h_1 htype =>
    split
    case h_1 c _ => exact .refused s c (.inl rfl)
    case h_2 h _ =>
      unfold checkEpochHello
      split
      case h_1 hnone =>
        exact .passed s _ (.inl rfl) rfl (.inl hnone) fun hhello _ => absurd htype hhello
      case h_2 old hold =>
        split_ifs with hsame hrate hlimit
        · exact .passed s _ (.inl rfl) rfl (.inr (hsame ▸ hold)) fun hhello _ => absurd htype hhello
        · exact .refused s _ (.inl rfl)
        · exact .refused s _ (.inl rfl)
        · refine .renegotiated h old htype hold hsame ?_ (not_le.mp hlimit)
          intro last hlast
          rw [hlast] at hrate
          simpa using hrate
  case h_2 htype =>
    split
    case h_1 c _ => exact .refused s c (.inl rfl)
    case h_2 h _ =>
      unfold checkEpochAck
      dsimp only
      split
      case h_1 i _ =>
        split_ifs with hpinned
        · exact .passed _ _ (.inr rfl) rfl (.inr hpinned) fun _ hack => absurd htype hack
        · exact .refused _ _ (.inr rfl)
      case h_2 =>
        split_ifs with hnonce hstale
        · exact .refused _ _ (.inr rfl)
        · exact .refused _ _ (.inr rfl)
        · refine .passed _ _ (.inr rfl) rfl ?_ fun _ hack => absurd htype hack
          cases hp : s.pinned with
          | none => exact .inl rfl
          | some old =>
            have hold : (expireProbes s T).pinned = some old := hp
            rw [hold] at hstale
            simp only [Option.any_some, decide_eq_true_eq, not_not] at hstale
            exact .inr (congrArg some hstale)
  case h_3 hhello hack =>
    split
    case h_1 => exact .refused s _ (.inl rfl)
    case h_2 old hold =>
      split_ifs with hstale
      · exact .refused s _ (.inl rfl)
      · have hsame : s.pinned = some p.header.sessionEpoch := by rw [hold, not_not.mp hstale]
        exact .passed s _ (.inl rfl) rfl (.inr hsame) fun _ _ => hsame

def recorded (u : Session) (p : RxPacket) : Session := (recordPacket u p.header.sequence).2

theorem recorded_rejected {u : Session} {p : RxPacket}
    (h : (u.window.check p.header.sequence).accepted = false) :
    recorded u p = u := by
  have hwindow := accept_rejected h
  unfold recorded recordPacket
  simp only [accept_fst, h, Bool.false_and, Bool.false_eq_true, if_false, hwindow]

/-- The ways a reception can go, with the result of each. -/
inductive Received (C : SessionConfig) (E : SessionIo) (s : Session) (p : RxPacket) (T : Millis) :
    Option Counter × Session → Prop where
  | inactive : s.active = false →
    Received C E s p T (some .dropTerminalState, s.count .dropTerminalState)
  | refused (u : Session) (c : Counter) : s.active = true → checkEpoch C E s p T = (u, .error c) →
      Received C E s p T (some c, u.count c)
  | repeated (u : Session) (pass : EpochPass) (c : Counter) : s.active = true →
      checkEpoch C E s p T = (u, .ok pass) → (u.window.check p.header.sequence).accepted = false →
      Received C E s p T (some c, u.count c)
  | invalid (u w : Session) (pass : EpochPass) (c : Counter) : s.active = true →
      checkEpoch C E s p T = (u, .ok pass) → (u.window.check p.header.sequence).accepted = true →
      checkType C (recorded u p) p T = (w, .error c) → Received C E s p T (some c, w.count c)
  | renegotiated (u w : Session) (pass : EpochPass) (body : Body) : s.active = true →
      checkEpoch C E s p T = (u, .ok pass) → (u.window.check p.header.sequence).accepted = true →
      checkType C (recorded u p) p T = (w, .ok body) → pass.renegotiated = true →
      Received C E s p T (none, afterRenegotiation C E w p T)
  | applied (u w : Session) (pass : EpochPass) (body : Body) : s.active = true →
      checkEpoch C E s p T = (u, .ok pass) → (u.window.check p.header.sequence).accepted = true →
      checkType C (recorded u p) p T = (w, .ok body) → pass.renegotiated = false →
      Received C E s p T (applyEffects C E w p pass (u.window.check p.header.sequence) body T)

theorem receive_cases (s : Session) (p : RxPacket) (T : Millis) :
    Received C E s p T (receive C E s p T) := by
  unfold receive
  by_cases hactive : s.active = true
  · rw [hactive]
    simp only [Bool.not_true, Bool.false_eq_true, if_false]
    rcases hcheck : checkEpoch C E s p T with ⟨u, c | pass⟩
    · exact .refused u c hactive hcheck
    · dsimp only
      unfold receivePassed
      have hfst : (recordPacket u p.header.sequence).1 = u.window.check p.header.sequence := rfl
      have hsnd : (recordPacket u p.header.sequence).2 = recorded u p := rfl
      rcases hrecord : recordPacket u p.header.sequence with ⟨d, v⟩
      rw [hrecord] at hfst hsnd
      dsimp only at hfst hsnd ⊢
      subst hfst hsnd
      have hrejected : (u.window.check p.header.sequence).accepted = false → ∀ c,
          Received C E s p T (some c, (recorded u p).count c) := by
        intro hrej c
        rw [recorded_rejected hrej]
        exact .repeated u pass c hactive hcheck hrej
      split
      case h_1 hdup => exact hrejected (by simp [ReplayDecision.accepted, hdup]) _
      case h_2 hold => exact hrejected (by simp [ReplayDecision.accepted, hold]) _
      case h_3 hdup hold =>
        have haccepted : (u.window.check p.header.sequence).accepted = true := by
          cases hv : (u.window.check p.header.sequence).verdict with
          | advance => simp [ReplayDecision.accepted, hv]
          | reorder => simp [ReplayDecision.accepted, hv]
          | duplicate => exact absurd hv hdup
          | tooOld => exact absurd hv hold
        rcases htype : checkType C (recorded u p) p T with ⟨w, c | body⟩
        · exact .invalid u w pass c hactive hcheck haccepted htype
        · dsimp only
          by_cases hreneg : pass.renegotiated = true
          · rw [if_pos hreneg]
            exact .renegotiated u w pass body hactive hcheck haccepted htype hreneg
          · rw [if_neg hreneg]
            exact .applied u w pass body hactive hcheck haccepted htype (by simpa using hreneg)
  · rw [show s.active = false by simpa using hactive]
    exact .inactive (by simpa using hactive)

/-! ## What a call reports -/

theorem renegotiate_notices (p : RxPacket) (nonce : Nonce) (old : U32)
    (hold : s.pinned = some old) :
    (renegotiate C E s p nonce T).pinned = some p.header.sessionEpoch ∧
      (renegotiate C E s p nonce T).window = s.window.reset ∧
      (renegotiate C E s p nonce T).terminal = s.terminal ∧
      (renegotiate C E s p nonce T).terminalSince = s.terminalSince ∧
      ∃ moved, noticesOf (renegotiate C E s p nonce T).out = noticesOf s.out ++
        [.retired old] ++ moved ∧
        Moved s.state (renegotiate C E s p nonce T).state moved := by
  have hack :=
    sendHelloAck_unnoticed (C := C) (E := E) (T := T) (s := resetForEpoch s p.header.sessionEpoch T)
    nonce p.source
  unfold renegotiate
  dsimp only
  generalize sendHelloAck C E (resetForEpoch s p.header.sessionEpoch T) nonce p.source
    T = u at hack ⊢
  have hrestart : Unnoticed (stopTraffic u) (restartPunch C E (stopTraffic u) T) := by
    have hround := sendHelloRound_unnoticed (C := C) (E := E)
      (s := { stopTraffic u with punch := arm T punchDeadlineMs })
    unfold restartPunch
    split_ifs
    · exact ⟨⟨hround.window, hround.pinned, hround.terminal, hround.since⟩, hround.notices⟩
    · exact .refl _
  generalize restartPunch C E (stopTraffic u) T = v at hrestart ⊢
  obtain ⟨hstate, hheld, moved, hnotices, hmoved⟩ :=
    settle_notices (C := C) (E := E) (T := T) (s := v) s.state
  have hstop : Held u (stopTraffic u) := ⟨rfl, rfl, rfl, rfl⟩
  have hkept : Held (resetForEpoch s p.header.sessionEpoch T) (settle C E v s.state T) :=
    hack.toHeld.trans (hstop.trans (hrestart.toHeld.trans hheld))
  refine ⟨hkept.pinned, hkept.window, hkept.terminal, hkept.since, moved, ?_, ?_⟩
  · rw [hnotices, hrestart.notices, show (stopTraffic u).out = u.out from rfl, hack.notices]
    simp only [resetForEpoch, noticesOf_append, hold, Option.toList_some, noticesOf_retired]
    rfl
  · rw [hstate]
    exact hmoved

/-- The terminal state a call led to is stamped with its time. -/
def StampedAt (T : Millis) (s s' : Session) : Prop :=
  s'.terminalSince = if isTerminal s'.state then some T else s.terminalSince

/-- What the session checked before it hands a packet to the sink. -/
structure Deliverable (C : SessionConfig) (E : SessionIo) (s : Session) (p : RxPacket) : Prop where
  data : p.type = some .data
  connected : s.state = .connected
  inner : checkInnerIpv4 p.payload C.peerVirtualIp C.localVirtualIp = none
  epoch : s.pinned = some p.header.sessionEpoch
  sink : E.dataSink = true

/-- What one call did, as far as others can tell. -/
inductive Did (C : SessionConfig) (E : SessionIo) (s : Session) (op : Op) (T : Millis)
    (s' : Session) : Prop where
  | quiet : s'.state = s.state → Unnoticed s s' → Did C E s op T s'
  | data (inner : List U8) : op = .sendData inner → s'.state = s.state → SentData inner s s' →
    Did C E s op T s'
  | ended (st : SessionState) : isTerminal st = true → s.active = true → s'.state = st →
    s'.terminalSince = some T →
      s'.window = s.window → s'.pinned = s.pinned →
      noticesOf s'.out = noticesOf s.out ++ [.transition s.state st] →
      Did C E s op T s'
  | dropped (p : RxPacket) : op = .receive p → s.active = true → s'.state = s.state →
    s'.pinned = s.pinned →
      s'.terminalSince = s.terminalSince → s'.window = (s.window.accept p.header.sequence).2 →
      noticesOf s'.out = noticesOf s.out → Did C E s op T s'
  | renegotiated (p : RxPacket) (old : U32) (moved : List Event) : op = .receive p →
    s.active = true →
      p.type = some .hello → s.pinned = some old → p.header.sessionEpoch ≠ old →
      s'.pinned = some p.header.sessionEpoch → s'.active = true →
      s'.terminalSince = s.terminalSince →
      Moved s.state s'.state moved → noticesOf s'.out = noticesOf s.out ++ [.retired old] ++ moved →
      Did C E s op T s'
  | accepted (p : RxPacket) (delivered moved : List Event) : op = .receive p → s.active = true →
      (s.window.check p.header.sequence).accepted = true →
      s.pinned = none ∨ s.pinned = some p.header.sessionEpoch →
      s'.pinned = some p.header.sessionEpoch →
      s'.window = (s.window.accept p.header.sequence).2 → StampedAt T s s' →
      delivered = [] ∨ Deliverable C E s p ∧ delivered = [.delivered p.payload] →
      Moved s.state s'.state moved → noticesOf s'.out = noticesOf s.out ++ delivered ++ moved →
      Did C E s op T s'

theorem active_of_terminal (h : s'.terminal = s.terminal) : s'.active = s.active := by
  unfold Session.active Session.state
  rw [h]
  cases s.terminal with
  | some st => rfl
  | none =>
    dsimp only
    split_ifs <;> rfl

theorem not_terminal_of_active (h : s.active = true) : isTerminal s.state = false := by
  simpa [Session.active] using h

theorem sendClose_state (reason : CloseReason) : (sendClose C E s reason).state = s.state := by
  unfold sendClose
  split
  · rfl
  · next e _ =>
    obtain ⟨counters, calls, hs, -⟩ :=
      sendPacket_spec (C := C) (E := E) s .close (encodeClose reason) e
    rw [hs]
    rfl

theorem fail_notices (failure : SessionFailure) :
    (fail C E s failure T).state = .failed ∧ (fail C E s failure T).window = s.window ∧
      (fail C E s failure T).pinned = s.pinned ∧ (fail C E s failure T).terminalSince = some T ∧
      noticesOf (fail C E s failure T).out = noticesOf s.out ++ [.transition s.state .failed] := by
  have hclose := sendClose_unnoticed (C := C) (E := E) (s := stopTimers s) .setupFailed
  unfold fail
  dsimp only
  have hstate : (sendClose C E (stopTimers s) .setupFailed).state = s.state := sendClose_state _
  generalize sendClose C E (stopTimers s) .setupFailed = u at hclose hstate ⊢
  obtain ⟨hfailed, hwindow, hpinned, hsince, hnotices⟩ :=
    enterTerminal_notices (s := { u with failure := some failure }.emit (.line (.failed failure)))
      (T := T) .failed
  refine ⟨hfailed, hwindow.trans hclose.window, hpinned.trans hclose.pinned, hsince, ?_⟩
  rw [hnotices]
  have hbefore : ({ u with failure := some failure }.emit (.line (.failed failure))).state =
    s.state := hstate
  rw [hbefore]
  simp only [Session.emit, noticesOf_append, noticesOf_line, List.append_nil]
  rw [hclose.notices]
  rfl

theorem pollHello_unnoticed : Unnoticed s (pollHello C E s T) := by
  unfold pollHello
  split_ifs
  · have hround := sendHelloRound_unnoticed (C := C) (E := E) (s := emitTick s .hello s.hello T)
    refine ⟨⟨hround.window, hround.pinned, hround.terminal, hround.since⟩, hround.notices.trans ?_⟩
    simp [emitTick, Session.emit]
  · exact .refl s

theorem tick_unnoticed (kind : TimerKind) (timer : Timer) :
    Unnoticed s (emitTick s kind timer T) := by
  refine ⟨⟨rfl, rfl, rfl, rfl⟩, ?_⟩
  simp [emitTick, Session.emit]

theorem pollKeepalive_unnoticed : Unnoticed s (pollKeepalive C E s T) := by
  unfold pollKeepalive
  split_ifs
  · exact (tick_unnoticed _ _).trans sendKeepalive_unnoticed
  · exact .refl s

theorem pollPing_unnoticed : Unnoticed s (pollPing C E s T) := by
  unfold pollPing
  split_ifs
  · exact (tick_unnoticed _ _).trans sendPing_unnoticed
  · exact .refl s

theorem pollHello_state : (pollHello C E s T).state = s.state := by
  unfold pollHello
  split_ifs
  · have hround := sendHelloRound_same (C := C) (E := E) (s := emitTick s .hello s.hello T)
    exact state_congr hround.terminal hround.got_ack hround.sent_ack
  · rfl

theorem pollKeepalive_state : (pollKeepalive C E s T).state = s.state := by
  unfold pollKeepalive
  split_ifs
  · have hsend := sendToPeer_same (C := C) (E := E) (s := emitTick s .keepalive s.keepalive T)
      (show PacketType.keepalive ≠ .close by decide) []
    exact state_congr hsend.terminal hsend.got_ack hsend.sent_ack
  · rfl

theorem pollPing_state : (pollPing C E s T).state = s.state := by
  unfold pollPing
  split_ifs
  · have hping := sendPing_same (C := C) (E := E) (s := emitTick s .ping s.ping T) (T := T)
    exact state_congr hping.terminal hping.got_ack hping.sent_ack
  · rfl

theorem poll_did : Did C E s .poll T (poll C E s T) := by
  unfold poll
  by_cases hactive : s.active = true
  · rw [hactive]
    simp only [Bool.not_true, Bool.false_eq_true, if_false]
    have hexpired : Unnoticed s (expireProbes s T) := expireProbes_unnoticed
    have hended : ∀ (kind : TimerKind) (timer : Timer) (failure : SessionFailure),
        Did C E s .poll T (fail C E (emitTick (expireProbes s T) kind timer T) failure T) := by
      intro kind timer failure
      have htick : Unnoticed s (emitTick (expireProbes s T) kind timer T) :=
        hexpired.trans (tick_unnoticed _ _)
      obtain ⟨hstate, hwindow, hpinned, hsince, hnotices⟩ :=
        fail_notices (C := C) (E := E) (T := T)
          (s := emitTick (expireProbes s T) kind timer T) failure
      refine .ended .failed rfl hactive hstate hsince (hwindow.trans htick.window)
        (hpinned.trans htick.pinned) ?_
      rw [hnotices, htick.notices]
      rfl
    split_ifs
    · exact hended _ _ _
    · exact hended _ _ _
    · exact hended _ _ _
    · refine .quiet ?_ ?_
      · rw [pollPing_state, pollKeepalive_state, pollHello_state]
        rfl
      · exact hexpired.trans
          (pollHello_unnoticed.trans (pollKeepalive_unnoticed.trans pollPing_unnoticed))
  · rw [if_pos (by simpa using hactive)]
    exact .quiet rfl (.refl s)

theorem startPunch_did : Did C E s .startPunch T (startPunch C E s T).2 := by
  unfold startPunch
  split_ifs
  · exact .quiet rfl (.refl s)
  dsimp only
  split_ifs
  · exact .quiet rfl ⟨⟨rfl, rfl, rfl, rfl⟩, rfl⟩
  · have hround := sendHelloRound_unnoticed (C := C) (E := E) (s := { s with punchStarted := true })
    have hsame := sendHelloRound_same (C := C) (E := E) (s := { s with punchStarted := true })
    refine .quiet ?_ ⟨⟨hround.window, hround.pinned, hround.terminal, hround.since⟩, hround.notices⟩
    exact state_congr hsame.terminal hsame.got_ack hsame.sent_ack

theorem closeByUser_did : Did C E s .closeByUser T (closeByUser C E s T) := by
  unfold closeByUser
  by_cases hactive : s.active = true
  · rw [hactive]
    simp only [Bool.not_true, Bool.false_eq_true, if_false]
    generalize (if s.state = .connected then CloseReason.normal else .userCancel) = reason
    have hclose := sendClose_unnoticed (C := C) (E := E) (s := s) reason
    obtain ⟨hstate, hwindow, hpinned, hsince, hnotices⟩ :=
      enterTerminal_notices (s := sendClose C E s reason) (T := T) .closed
    refine .ended .closed rfl hactive hstate hsince (hwindow.trans hclose.window)
      (hpinned.trans hclose.pinned) ?_
    rw [hnotices, hclose.notices, sendClose_state]
  · rw [if_pos (by simpa using hactive)]
    exact .quiet rfl (.refl s)

theorem sendData_did (inner : List U8) : Did C E s (.sendData inner) T (sendData C E s inner).2 :=
  .data inner rfl (sendData_same inner).state (sendData_sentData inner)

theorem sendRoster_did (payload : List U8) :
    Did C E s (.sendRoster payload) T (sendRoster C E s payload) :=
  .quiet (sendToPeer_same (by decide) payload).state (sendToPeer_unnoticed (by decide) payload)

theorem applyEffects_did {w : Session} {p : RxPacket} {pass : EpochPass} {body : Body}
    (hactive : s.active = true) (haccepted : (s.window.check p.header.sequence).accepted = true)
    (hpin : s.pinned = none ∨ s.pinned = some p.header.sessionEpoch)
    (hdata : body = .data → Deliverable C { E with dataSink := true } s p)
    (hstate : w.state = s.state) (hwindow : w.window = (s.window.accept p.header.sequence).2)
    (hpinned : w.pinned = s.pinned) (hterminal : w.terminal = s.terminal)
    (hsince : w.terminalSince = s.terminalSince) (hnotices : noticesOf w.out = noticesOf s.out)
    (d : ReplayDecision) :
    Did C E s (.receive p) T (applyEffects C E w p pass d body T).2 := by
  obtain ⟨hp, hpw, hpt, hps, hpo⟩ := pin_pinned (s := w) p.header.sessionEpoch
  have hepoch : (pin w p.header.sessionEpoch).pinned = some p.header.sessionEpoch := by
    rw [hp, hpinned]
    rcases hpin with h | h <;> rw [h] <;> rfl
  have hlearn := learnSource_unnoticed (C := C) (s := pin w p.header.sessionEpoch) p pass d
  have hlearned : (learnSource C (pin w p.header.sessionEpoch) p pass d).2.state = s.state := by
    rw [(learnSource_same (C := C) p pass d).state, (pin_same p.header.sessionEpoch).state, hstate]
  unfold applyEffects
  dsimp only
  generalize learnSource C (pin w p.header.sessionEpoch) p pass d = r at hlearn hlearned ⊢
  obtain ⟨probeSource, u⟩ := r
  dsimp only at hlearn hlearned ⊢
  have hrenewed : Unnoticed u (renewIdle u w.state T) := by
    unfold renewIdle
    split_ifs
    · exact ⟨⟨rfl, rfl, rfl, rfl⟩, rfl⟩
    · exact .refl u
  have hrenewedState : (renewIdle u w.state T).state = s.state := by
    unfold renewIdle
    split_ifs
    · exact hlearned
    · exact hlearned
  generalize renewIdle u w.state T = v at hrenewed hrenewedState ⊢
  have hv := hlearn.trans hrenewed
  have hvw : v.window = (s.window.accept p.header.sequence).2 := (hv.window.trans hpw).trans hwindow
  have hvp : v.pinned = some p.header.sessionEpoch := hv.pinned.trans hepoch
  have hvn : noticesOf v.out = noticesOf s.out := by rw [hv.notices, hpo, hnotices]
  have hrest : ∀ body, (body = .data → Deliverable C { E with dataSink := true } s p) →
      Did C E s (.receive p) T (dropWithoutSink E (settle C E (raiseSource C E
        (act C E v p pass body w.state T) p.source probeSource T) w.state T) body).2 := by
    intro body hdata
    obtain ⟨hacted, hdelivered⟩ :=
      act_notices (C := C) (E := E) (T := T) (s := v) p pass body w.state
    have hraised :=
      raiseSource_unnoticed (C := C) (E := E) (T := T) (s := act C E v p pass body w.state T)
      p.source probeSource
    generalize raiseSource C E (act C E v p pass body w.state T) p.source probeSource T =
      x at hraised ⊢
    obtain ⟨hsettled, hheld, moved, hmoves, hmoved⟩ :=
      settle_notices (C := C) (E := E) (T := T) (s := x) w.state
    have hdropped := dropWithoutSink_unnoticed (E := E) (s := settle C E x w.state T) body
    have hsame :
      SameControl (settle C E x w.state T) (dropWithoutSink E (settle C E x w.state T) body).2 :=
      dropWithoutSink_same
    have hdroppedState := hsame.state
    generalize dropWithoutSink E (settle C E x w.state T) body = y at hdropped hdroppedState ⊢
    have hfinal : Held v y.2 := hacted.trans (hraised.toHeld.trans (hheld.trans hdropped.toHeld))
    have hterm : y.2.terminal = s.terminal :=
      hfinal.terminal.trans ((hv.terminal.trans hpt).trans hterminal)
    have hstamp : StampedAt T s y.2 := by
      have hstill : isTerminal y.2.state = false :=
        not_terminal_of_active ((active_of_terminal hterm).trans hactive)
      unfold StampedAt
      rw [hstill]
      exact hfinal.since.trans ((hv.since.trans hps).trans hsince)
    have hmoved' : Moved s.state y.2.state moved := by
      rw [hdroppedState, hsettled, ← hstate]
      exact hmoved
    refine .accepted p (deliveryOf E p pass body) moved rfl hactive haccepted hpin
      (hfinal.pinned.trans hvp)
      (hfinal.window.trans hvw) hstamp ?_ hmoved' ?_
    · unfold deliveryOf
      by_cases hdeliver : pass = .other ∧ body = .data ∧ E.dataSink = true
      · rw [if_pos hdeliver]
        have h := hdata hdeliver.2.1
        exact .inr ⟨⟨h.data, h.connected, h.inner, h.epoch, hdeliver.2.2⟩, rfl⟩
      · rw [if_neg hdeliver]
        exact .inl rfl
    · rw [hdropped.notices, hmoves, hraised.notices, hdelivered, hvn]
  cases body with
  | close reason =>
    obtain ⟨hclosed, hcw, hcp, hcs, hcn⟩ :=
      enterTerminal_notices (s := { v with peerCloseReason := some reason }) (T := T) .closed
    have hmoved : Moved s.state .closed [.transition s.state .closed] := by
      refine .inr ⟨?_, rfl⟩
      intro hsame
      have h := not_terminal_of_active hactive
      rw [← hsame] at h
      cases h
    refine .accepted p [] [.transition s.state .closed] rfl hactive haccepted hpin (hcp.trans hvp)
      (hcw.trans hvw)
      ?_ (.inl rfl) ?_ ?_
    · unfold StampedAt
      rw [hclosed]
      exact hcs
    · rw [hclosed]
      exact hmoved
    · rw [hcn, show ({ v with peerCloseReason := some reason } : Session).state =
        s.state from hrenewedState]
      simp only [List.append_nil]
      rw [hvn]
  | bare => exact hrest _ hdata
  | data => exact hrest _ hdata
  | ping pingId => exact hrest _ hdata
  | pong pingId => exact hrest _ hdata
  | roster r => exact hrest _ hdata

theorem renegotiated_passes {p : RxPacket} (nonce : Nonce) {old : U32}
    (htype : p.type = some .hello) (hold : s.pinned = some old) :
    ((renegotiate C E s p nonce T).window.check p.header.sequence).accepted = true ∧
      checkType C (recorded (renegotiate C E s p nonce T) p) p T =
        (recorded (renegotiate C E s p nonce T) p, .ok .bare) := by
  obtain ⟨-, hwindow, -⟩ := renegotiate_notices (C := C) (E := E) (T := T) p nonce old hold
  constructor
  · rw [hwindow]
    simp [ReplayDecision.accepted, check_fresh (w := s.window.reset) rfl]
  · unfold checkType
    rw [htype]

theorem checkType_data {p : RxPacket} {w : Session} (h : checkType C s p T = (w, .ok .data)) :
    p.type = some .data ∧ s.state = .connected ∧
    checkInnerIpv4 p.payload C.peerVirtualIp C.localVirtualIp = none := by
  unfold checkType at h
  split at h
  case h_1 htype =>
    split_ifs at h with hstate
    · simp at h
    · split at h
      case h_1 => simp at h
      case h_2 hinner => exact ⟨htype, not_not.mp hstate, hinner⟩
  case h_2 => split at h <;> simp at h
  case h_3 =>
    split at h
    case h_1 => simp at h
    case h_2 =>
      dsimp only at h
      split_ifs at h <;> simp at h
  case h_4 => split at h <;> simp at h
  case h_5 => split at h <;> simp at h
  case h_6 => simp at h

theorem receive_did (p : RxPacket) : Did C E s (.receive p) T (receive C E s p T).2 := by
  have hexpired : ∀ {u}, u = s ∨ u = expireProbes s T → u.state = s.state ∧ Unnoticed s u := by
    rintro u (rfl | rfl)
    · exact ⟨rfl, .refl _⟩
    · exact ⟨rfl, expireProbes_unnoticed⟩
  have hcount : ∀ {u : Session} (c : Counter), u.state = s.state ∧ Unnoticed s u →
      Did C E s (.receive p) T (u.count c) := by
    rintro u c ⟨hstate, hu⟩
    exact .quiet hstate ⟨⟨hu.window, hu.pinned, hu.terminal, hu.since⟩, hu.notices⟩
  have hreceived := receive_cases (C := C) (E := E) s p T
  have hchecked := checkEpoch_cases (C := C) (E := E) s p T
  generalize receive C E s p T = result at hreceived ⊢
  cases hreceived with
  | inactive hactive => exact hcount _ ⟨rfl, .refl s⟩
  | refused u c hactive hcheck =>
    rw [hcheck] at hchecked
    cases hchecked with
    | refused _ _ hu => exact hcount c (hexpired hu)
  | repeated u pass c hactive hcheck hrejected =>
    rw [hcheck] at hchecked
    cases hchecked with
    | passed _ _ hu _ _ _ => exact hcount c (hexpired hu)
    | renegotiated h old htype hold hne =>
      rw [(renegotiated_passes _ htype hold).1] at hrejected
      cases hrejected
  | invalid u w pass c hactive hcheck haccepted htyped =>
    rw [hcheck] at hchecked
    cases hchecked with
    | passed _ _ hu _ _ _ =>
      obtain ⟨hstate, hheld⟩ := hexpired hu
      have hw := checkType_unnoticed (C := C) (s := recorded u p) (T := T) p
      have hwstate := (checkType_same (C := C) (s := recorded u p) (T := T) p).state
      rw [htyped] at hw hwstate
      refine .dropped p rfl hactive (hwstate.trans hstate) (hw.pinned.trans hheld.pinned)
        (hw.since.trans hheld.since) ?_ (hw.notices.trans hheld.notices)
      rw [show (w.count c).window = w.window from rfl, hw.window]
      exact congrArg (fun win => (ReplayWindow.accept win p.header.sequence).2) hheld.window
    | renegotiated h old htype hold hne =>
      rw [(renegotiated_passes _ htype hold).2] at htyped
      simp at htyped
  | renegotiated u w pass body hactive hcheck haccepted htyped hreneg =>
    rw [hcheck] at hchecked
    cases hchecked with
    | passed _ _ _ hnot _ _ =>
      rw [hreneg] at hnot
      cases hnot
    | renegotiated h old htype hold hne =>
      rw [(renegotiated_passes _ htype hold).2] at htyped
      obtain ⟨rfl, -⟩ := Prod.mk.inj htyped
      obtain ⟨hpinned, -, hterminal, hsince, moved, hnotices, hmoved⟩ :=
        renegotiate_notices (C := C) (E := E) (T := T) p h.nonce old hold
      generalize renegotiate C E s p h.nonce T = u at hpinned hterminal hsince hnotices hmoved ⊢
      have hafter : Unnoticed (recorded u p) (afterRenegotiation C E (recorded u p) p T) ∧
          (afterRenegotiation C E (recorded u p) p T).state = u.state := by
        unfold afterRenegotiation
        split_ifs
        · exact ⟨.refl _, rfl⟩
        · exact ⟨startPathProbe_unnoticed p.source, (startPathProbe_same p.source).state⟩
      obtain ⟨hafter, hstate⟩ := hafter
      refine .renegotiated p old moved rfl hactive htype hold hne (hafter.pinned.trans hpinned)
        ((active_of_terminal (hafter.terminal.trans hterminal)).trans hactive)
        (hafter.since.trans hsince)
        (hstate ▸ hmoved) (hafter.notices.trans hnotices)
  | applied u w pass body hactive hcheck haccepted htyped hnot =>
    rw [hcheck] at hchecked
    cases hchecked with
    | passed _ _ hu _ hpin hother =>
      obtain ⟨hstate, hheld⟩ := hexpired hu
      have hw := checkType_unnoticed (C := C) (s := recorded u p) (T := T) p
      have hwstate := (checkType_same (C := C) (s := recorded u p) (T := T) p).state
      rw [htyped] at hw hwstate
      rw [hheld.window] at haccepted
      refine applyEffects_did hactive haccepted hpin ?_ (hwstate.trans hstate) ?_
        (hw.pinned.trans hheld.pinned)
        (hw.terminal.trans hheld.terminal) (hw.since.trans hheld.since)
          (hw.notices.trans hheld.notices) _
      · rintro rfl
        obtain ⟨htype, hconnected, hinner⟩ := checkType_data htyped
        refine ⟨htype, hstate ▸ hconnected, hinner, hother ?_ ?_, rfl⟩
        · rw [htype]
          decide
        · rw [htype]
          decide
      · rw [hw.window]
        exact congrArg (fun win => (ReplayWindow.accept win p.header.sequence).2) hheld.window
    | renegotiated h old htype hold hne => cases hnot

theorem step_did (op : Op) : Did C E { s with out := [] } op T (step C E s op T) := by
  cases op with
  | startPunch => exact startPunch_did
  | poll => exact poll_did
  | receive p => exact receive_did p
  | sendData inner => exact sendData_did inner
  | sendRoster payload => exact sendRoster_did payload
  | closeByUser => exact closeByUser_did

end Sangtachi.Peer
