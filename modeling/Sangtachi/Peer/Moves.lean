import Sangtachi.Peer.Timers
import Mathlib.Logic.Relation

/-! # Operations as sequences of moves

Every public call of a session is a sequence of elementary moves, each guarded by what the code
checked before it. Properties of whole runs look at one move at a time. -/
namespace Sangtachi.Peer

open Sangtachi.BigEndian Sangtachi.Packet Sangtachi.Replay Sangtachi.InnerIpv4

variable {C : SessionConfig} {E : SessionIo} {s₀ s s' : Session} {T : Millis}
  {rx : Option RxPacket}

/-- Flags, epoch, window, endpoint, probes, budget, sequence numbers and datagrams are as they
were: only bookkeeping differs. -/
structure SameCore (s s' : Session) : Prop where
  got_ack : s'.gotAck = s.gotAck
  sent_ack : s'.sentAck = s.sentAck
  terminal : s'.terminal = s.terminal
  pinned : s'.pinned = s.pinned
  window : s'.window = s.window
  next_seq : s'.nextSeq = s.nextSeq
  sends : s'.sends = s.sends
  endpoint : s'.peerEndpoint = s.peerEndpoint
  renegotiations : s'.renegotiations = s.renegotiations
  probes : s'.probes = s.probes
  budget : s'.budgetMilli = s.budgetMilli
  budget_at : s'.budgetAt = s.budgetAt
  sent : sentOf s'.out = sentOf s.out

/-- A HELLO_ACK that answers a live probe of the session: it comes from the probed address, echoes
the nonce drawn for that address under the pinned epoch, and advances the window. -/
structure Answers (s : Session) (p : RxPacket) (T : Millis) : Prop where
  type : p.type = some .helloAck
  epoch : s.pinned = some p.header.sessionEpoch
  advances : (s.window.check p.header.sequence).verdict = .advance
  probed : ∃ h q, decodeHello p.payload = .ok h ∧ q ∈ s.probes ∧ q.nonce = h.nonce ∧
    q.dest = p.source ∧ T < q.registered + probeTtlMs

/-- One elementary change inside an operation that began in `s₀`. -/
inductive Move (C : SessionConfig) (E : SessionIo) (s₀ : Session) (rx : Option RxPacket)
    (T : Millis) : Session → Session → Prop where
  | quiet {u v : Session} : SameCore u v → Move C E s₀ rx T u v
  | expire (u : Session) : Move C E s₀ rx T u (expireProbes u T)
  | helloRound (u : Session) (c : Endpoint) : c ∈ C.candidates → Move C E s₀ rx T u
      (sendPacket C E u .hello (encodeHello ⟨C.attemptNonce, C.localVirtualIp⟩) c).2
  | traffic (u : Session) (type : PacketType) (payload : List U8) (dest : Endpoint) :
      type ≠ .hello → type ≠ .helloAck → isVerified C u dest = true →
      Move C E s₀ rx T u (sendPacket C E u type payload dest).2
  | record (u : Session) (p : RxPacket) : rx = some p →
      Move C E s₀ rx T u (recordPacket u p.header.sequence).2
  | pin (u : Session) (p : RxPacket) : rx = some p →
      Move C E s₀ rx T u (Peer.pin u p.header.sessionEpoch)
  | answer (u : Session) (i : ℕ) : Move C E s₀ rx T u (markAnswered u i)
  | learn (u : Session) (p : RxPacket) : rx = some p →
      isVerified C u p.source = true ∨ Answers s₀ p T →
      Move C E s₀ rx T u (Peer.learn u p.source)
  | ack (u : Session) (p : RxPacket) (h : HelloPayload) : rx = some p → p.type = some .hello →
      checkHello C p = .ok h →
      Move C E s₀ rx T u (sendHelloAck C E u h.nonce p.source T)
  | pong (u : Session) (p : RxPacket) (id : U64) : rx = some p →
      Move C E s₀ rx T u (sendPong C E u id p.source T)
  | confirm (u : Session) (p : RxPacket) (h : HelloPayload) : rx = some p →
      p.type = some .helloAck → checkHello C p = .ok h → h.nonce = C.attemptNonce →
      Move C E s₀ rx T u { u with gotAck := true }
  | probe (u : Session) (p : RxPacket) : rx = some p → u.terminal = none →
      isVerified C u p.source = false →
      Move C E s₀ rx T u (startPathProbe C E u p.source T)
  | reset (u : Session) (p : RxPacket) (old : U32) : rx = some p → u.pinned = some old →
      p.header.sessionEpoch ≠ old →
      Move C E s₀ rx T u (resetForEpoch u p.header.sessionEpoch T)
  | terminate (u : Session) (st : SessionState) :
      Move C E s₀ rx T u (enterTerminal u st T)

abbrev Moves (C : SessionConfig) (E : SessionIo) (s₀ : Session) (rx : Option RxPacket)
    (T : Millis) : Session → Session → Prop :=
  Relation.ReflTransGen (Move C E s₀ rx T)

theorem Moves.quiet (h : SameCore s s') : Moves C E s₀ rx T s s' := .single (.quiet h)

theorem count_core (c : Counter) : SameCore s (s.count c) := by constructor <;> rfl

theorem emit_core {e : Event} (he : sentOf [e] = []) : SameCore s (s.emit e) := by
  refine ⟨rfl, rfl, rfl, rfl, rfl, rfl, rfl, rfl, rfl, rfl, rfl, rfl, ?_⟩
  simp only [Session.emit, sentOf_append, he, List.append_nil]

/-! ## Sending -/

theorem verified_of_candidate {c : Endpoint} (h : c ∈ C.candidates) :
    isVerified C s c = true := by
  simp [isVerified, isCandidate, h]

theorem verified_of_endpoint {e : Endpoint} (h : s.peerEndpoint = some e) :
    isVerified C s e = true := by
  simp [isVerified, h]

theorem sendEach_moves {type : PacketType} {payload : List U8} {dests : List Endpoint}
    (h : ∀ (u : Session), ∀ c ∈ dests,
      Move C E s₀ rx T u (sendPacket C E u type payload c).2) :
    Moves C E s₀ rx T s (sendEach C E s type payload dests) := by
  induction dests generalizing s with
  | nil => exact .refl
  | cons e rest ih =>
    exact .head (h s e (by simp)) (ih fun u c hc => h u c (List.mem_cons_of_mem e hc))

theorem sendHelloRound_moves : Moves C E s₀ rx T s (sendHelloRound C E s) :=
  sendEach_moves fun u c hc => .helloRound u c hc

theorem sendToPeer_moves {type : PacketType} (h₁ : type ≠ .hello) (h₂ : type ≠ .helloAck)
    (payload : List U8) : Moves C E s₀ rx T s (sendToPeer C E s type payload) := by
  unfold sendToPeer
  split
  · next e heq => exact .single (.traffic s type payload e h₁ h₂ (verified_of_endpoint heq))
  · exact sendEach_moves fun u c hc =>
      .traffic u type payload c h₁ h₂ (verified_of_candidate hc)

theorem sendUntilFailure_moves (inner : List U8) {dests : List Endpoint}
    (h : ∀ c ∈ dests, c ∈ C.candidates) :
    Moves C E s₀ rx T s (sendUntilFailure C E s inner dests).2 := by
  induction dests generalizing s with
  | nil => exact .refl
  | cons e rest ih =>
    have hmove : Move C E s₀ rx T s (sendPacket C E s .data inner e).2 :=
      .traffic s .data inner e (by decide) (by decide) (verified_of_candidate (h e (by simp)))
    have hrest := fun c hc => h c (List.mem_cons_of_mem e hc)
    unfold sendUntilFailure
    split
    · next heq =>
      rw [heq] at hmove
      exact .single hmove
    · next heq =>
      rw [heq] at hmove
      exact .head hmove (ih hrest)

theorem sendData_moves (inner : List U8) :
    Moves C E s₀ rx T s (sendData C E s inner).2 := by
  unfold sendData
  split
  · next e heq =>
    exact .single (.traffic s .data inner e (by decide) (by decide) (verified_of_endpoint heq))
  · exact sendUntilFailure_moves inner fun c hc => hc

theorem sendClose_moves (reason : CloseReason) :
    Moves C E s₀ rx T s (sendClose C E s reason) := by
  unfold sendClose
  split
  · exact .refl
  · next e heq =>
    exact .single (.traffic s .close _ e (by decide) (by decide) (verified_of_endpoint heq))

/-! ## Transitions and timers -/

theorem sendKeepalive_moves : Moves C E s₀ rx T s (sendKeepalive C E s T) := by
  refine (sendToPeer_moves (show PacketType.keepalive ≠ .hello by decide) (by decide) []).trans
    (Moves.quiet ?_)
  constructor <;> rfl

theorem enterConnected_moves : Moves C E s₀ rx T s (enterConnected C E s T) := by
  unfold enterConnected
  refine Relation.ReflTransGen.trans (Moves.quiet ?_) sendKeepalive_moves
  constructor <;> rfl

theorem settle_moves (before : SessionState) :
    Moves C E s₀ rx T s (settle C E s before T) := by
  unfold settle
  dsimp only
  split_ifs
  · exact .refl
  · exact enterConnected_moves.trans (Moves.quiet (emit_core rfl))
  · exact Moves.quiet (emit_core rfl)

theorem fail_moves (failure : SessionFailure) :
    Moves C E s₀ rx T s (fail C E s failure T) := by
  unfold fail
  have hstop : SameCore s (stopTimers s) := by constructor <;> rfl
  refine (Moves.quiet hstop).trans ?_
  refine (sendClose_moves .setupFailed).trans ?_
  refine Relation.ReflTransGen.trans (Moves.quiet ?_) (.single (.terminate _ .failed))
  refine ⟨rfl, rfl, rfl, rfl, rfl, rfl, rfl, rfl, rfl, rfl, rfl, rfl, ?_⟩
  simp only [Session.emit, sentOf_append]
  exact List.append_nil _

theorem closeByUser_moves : Moves C E s₀ rx T s (closeByUser C E s T) := by
  unfold closeByUser
  split
  · exact .refl
  · exact (sendClose_moves _).trans (.single (.terminate _ .closed))

theorem startPunch_moves : Moves C E s₀ rx T s (startPunch C E s T).2 := by
  have hstart : Moves C E s₀ rx T s { s with punchStarted := true } := by
    refine Moves.quiet ?_
    constructor <;> rfl
  unfold startPunch
  dsimp only
  split_ifs
  · exact .refl
  · exact hstart
  · refine hstart.trans (sendHelloRound_moves.trans (Moves.quiet ?_))
    constructor <;> rfl

theorem expirePings_core : SameCore s (expirePings s T) := by constructor <;> rfl

theorem readRttClock_core : SameCore s (readRttClock E s).2 := by
  unfold readRttClock
  split <;> constructor <;> rfl

theorem SameCore.trans {t : Session} (h : SameCore s s') (k : SameCore s' t) : SameCore s t where
  got_ack := k.got_ack.trans h.got_ack
  sent_ack := k.sent_ack.trans h.sent_ack
  terminal := k.terminal.trans h.terminal
  pinned := k.pinned.trans h.pinned
  window := k.window.trans h.window
  next_seq := k.next_seq.trans h.next_seq
  sends := k.sends.trans h.sends
  endpoint := k.endpoint.trans h.endpoint
  renegotiations := k.renegotiations.trans h.renegotiations
  probes := k.probes.trans h.probes
  budget := k.budget.trans h.budget
  budget_at := k.budget_at.trans h.budget_at
  sent := k.sent.trans h.sent

theorem sendPing_moves : Moves C E s₀ rx T s (sendPing C E s T) := by
  have hexpire : SameCore s (expirePings { s with ping := arm T pingIntervalMs } T) := by
    constructor <;> rfl
  unfold sendPing
  dsimp only
  split
  · exact Moves.quiet hexpire
  · refine (Moves.quiet hexpire).trans ?_
    generalize expirePings { s with ping := arm T pingIntervalMs } T = u
    have hread := readRttClock_core (E := E) (s := { u with nextPingId := u.nextPingId + 1 })
    generalize readRttClock E { u with nextPingId := u.nextPingId + 1 } = r at hread ⊢
    refine Relation.ReflTransGen.trans (Moves.quiet ?_) 
      (sendToPeer_moves (show PacketType.ping ≠ .hello by decide) (by decide) _)
    exact ⟨hread.1, hread.2, hread.3, hread.4, hread.5, hread.6, hread.7, hread.8, hread.9,
      hread.10, hread.11, hread.12, hread.13⟩

theorem tick_core (kind : TimerKind) (t : Timer) : SameCore s (emitTick s kind t T) :=
  emit_core rfl

theorem pollHello_moves : Moves C E s₀ rx T s (pollHello C E s T) := by
  unfold pollHello
  split_ifs
  · refine (Moves.quiet (tick_core (T := T) .hello s.hello)).trans (sendHelloRound_moves.trans ?_)
    refine Moves.quiet ?_
    constructor <;> rfl
  · exact .refl

theorem pollKeepalive_moves : Moves C E s₀ rx T s (pollKeepalive C E s T) := by
  unfold pollKeepalive
  split_ifs
  · exact (Moves.quiet (tick_core (T := T) _ _)).trans sendKeepalive_moves
  · exact .refl

theorem pollPing_moves : Moves C E s₀ rx T s (pollPing C E s T) := by
  unfold pollPing
  split_ifs
  · exact (Moves.quiet (tick_core (T := T) _ _)).trans sendPing_moves
  · exact .refl

theorem poll_moves : Moves C E s₀ rx T s (poll C E s T) := by
  unfold poll
  split
  · exact .refl
  refine .head (.expire s) ?_
  dsimp only
  by_cases hpunch : (expireProbes s T).punch.isDue T
  · rw [if_pos hpunch]
    exact (Moves.quiet (tick_core (T := T) _ _)).trans (fail_moves _)
  rw [if_neg hpunch]
  split_ifs
  · exact (Moves.quiet (tick_core (T := T) _ _)).trans (fail_moves _)
  · exact pollHello_moves.trans (pollKeepalive_moves.trans pollPing_moves)

/-! ## Receiving -/

theorem restartPunch_moves : Moves C E s₀ rx T s (restartPunch C E s T) := by
  unfold restartPunch
  split_ifs
  · have harm : Moves C E s₀ rx T s { s with punch := arm T punchDeadlineMs } := by
      refine Moves.quiet ?_
      constructor <;> rfl
    refine harm.trans (sendHelloRound_moves.trans (Moves.quiet ?_))
    constructor <;> rfl
  · exact .refl

theorem renegotiate_moves {p : RxPacket} {h : HelloPayload} {old : U32} (hrx : rx = some p)
    (htype : p.type = some .hello) (hcheck : checkHello C p = .ok h)
    (hpinned : s.pinned = some old) (hne : p.header.sessionEpoch ≠ old) :
    Moves C E s₀ rx T s (renegotiate C E s p h.nonce T) := by
  refine .head (.reset s p old hrx hpinned hne) (.head (.ack _ p h hrx htype hcheck) ?_)
  have hstop : ∀ u : Session, SameCore u (stopTraffic u) := by
    intro u
    constructor <;> rfl
  refine (Moves.quiet (hstop _)).trans ?_
  exact restartPunch_moves.trans (settle_moves _)

/-- What the epoch check established about a packet it passed on. -/
structure Passed (C : SessionConfig) (s₀ s : Session) (p : RxPacket) (T : Millis)
    (pass : EpochPass) : Prop where
  hello : ∀ h r, pass = .hello h r → p.type = some .hello ∧ checkHello C p = .ok h
  ack : ∀ h probe, pass = .ack h probe → p.type = some .helloAck ∧ checkHello C p = .ok h ∧
    s.window = s₀.window ∧ (probe = none → h.nonce = C.attemptNonce) ∧
    (∀ i, probe = some i → s₀.pinned = some p.header.sessionEpoch ∧ ∃ q ∈ s₀.probes,
      q.nonce = h.nonce ∧ q.dest = p.source ∧ T < q.registered + probeTtlMs)

theorem checkHello_decode {p : RxPacket} {h : HelloPayload} (hcheck : checkHello C p = .ok h) :
    decodeHello p.payload = .ok h ∧ h.virtualIp = C.peerVirtualIp := by
  unfold checkHello at hcheck
  cases hd : decodeHello p.payload with
  | error e => simp [hd] at hcheck
  | ok h' =>
    simp only [hd] at hcheck
    split_ifs at hcheck with hv
    simp only [Except.ok.injEq] at hcheck
    subst hcheck
    exact ⟨rfl, not_not.mp hv⟩

theorem probeIndex_live {p : RxPacket} {nonce : Nonce} {i : ℕ}
    (h : probeIndex (expireProbes s T) nonce p.source = some i) :
    ∃ q ∈ s.probes, q.nonce = nonce ∧ q.dest = p.source ∧ T < q.registered + probeTtlMs := by
  unfold probeIndex at h
  obtain ⟨hi, hq, -⟩ := List.findIdx?_eq_some_iff_getElem.mp h
  have hmem := List.getElem_mem hi
  simp only [expireProbes, List.mem_filter, ProbePath.expired, Bool.not_eq_true',
    decide_eq_false_iff_not, not_le] at hmem
  simp only [decide_eq_true_eq] at hq
  exact ⟨_, hmem.1, hq.1, hq.2, hmem.2.trans_le (timeAfter_le _ _)⟩

theorem checkEpoch_moves {p : RxPacket} (hrx : rx = some p) :
    Moves C E s rx T s (checkEpoch C E s p T).1 ∧
      ∀ pass, (checkEpoch C E s p T).2 = .ok pass →
        Passed C s (checkEpoch C E s p T).1 p T pass := by
  unfold checkEpoch
  split
  · next htype =>
    split
    · exact ⟨.refl, fun pass h => by cases h⟩
    · next h hcheck =>
      have hpass : ∀ u r, Passed C s u p T (.hello h r) := by
        intro u r
        refine ⟨fun h' r' heq => ?_, fun h' probe heq => by cases heq⟩
        obtain ⟨rfl, rfl⟩ := EpochPass.hello.inj heq
        exact ⟨htype, hcheck⟩
      unfold checkEpochHello
      split
      · exact ⟨.refl, fun pass hp => by cases hp; exact hpass _ _⟩
      · next old hpinned =>
        split_ifs with heq hrate hlimit
        · exact ⟨.refl, fun pass hp => by cases hp; exact hpass _ _⟩
        · exact ⟨.refl, fun pass hp => by cases hp⟩
        · exact ⟨.refl, fun pass hp => by cases hp⟩
        · exact ⟨renegotiate_moves hrx htype hcheck hpinned heq,
            fun pass hp => by cases hp; exact hpass _ _⟩
  · next htype =>
    split
    · exact ⟨.refl, fun pass h => by cases h⟩
    · next h hcheck =>
      unfold checkEpochAck
      dsimp only
      split
      · next i hi =>
        split_ifs with hpinned
        · refine ⟨.single (.expire s), fun pass hp => ?_⟩
          cases hp
          refine ⟨fun h' r heq => (by cases heq), fun h' probe heq => ?_⟩
          obtain ⟨rfl, rfl⟩ := EpochPass.ack.inj heq
          refine ⟨htype, hcheck, rfl, fun hn => (by cases hn), fun j _ => ⟨hpinned, ?_⟩⟩
          exact probeIndex_live hi
        · exact ⟨.single (.expire s), fun pass hp => by cases hp⟩
      · split_ifs with hnonce hpinned
        · exact ⟨.single (.expire s), fun pass hp => by cases hp⟩
        · exact ⟨.single (.expire s), fun pass hp => by cases hp⟩
        · refine ⟨.single (.expire s), fun pass hp => ?_⟩
          cases hp
          refine ⟨fun h' r heq => (by cases heq), fun h' probe heq => ?_⟩
          obtain ⟨rfl, rfl⟩ := EpochPass.ack.inj heq
          exact ⟨htype, hcheck, rfl, fun _ => not_not.mp hnonce, fun j hj => by cases hj⟩
  · split
    · exact ⟨.refl, fun pass h => by cases h⟩
    · split_ifs
      · exact ⟨.refl, fun pass h => by cases h⟩
      · refine ⟨.refl, fun pass hp => ?_⟩
        cases hp
        exact ⟨fun h' r heq => (by cases heq), fun h' probe heq => (by cases heq)⟩

theorem checkType_core (p : RxPacket) : SameCore s (checkType C s p T).1 := by
  have hrefl : SameCore s s := by constructor <;> rfl
  unfold checkType
  split
  · split
    · exact hrefl
    · split <;> exact hrefl
  · split <;> exact hrefl
  · split
    · exact hrefl
    · dsimp only
      split <;> exact expirePings_core
  · split <;> exact hrefl
  · split <;> exact hrefl
  · exact hrefl

/-! ## The endpoint between learning and probing -/

theorem spendFor_endpoint (dest : Endpoint) :
    (spendFor C s dest T).2.peerEndpoint = s.peerEndpoint := by
  unfold spendFor refillBudget
  dsimp only
  split_ifs <;> rfl

theorem sendPacket_endpoint (type : PacketType) (payload : List U8) (dest : Endpoint) :
    (sendPacket C E s type payload dest).2.peerEndpoint = s.peerEndpoint := by
  obtain ⟨counters, calls, hs, -⟩ := sendPacket_spec (C := C) (E := E) s type payload dest
  rw [hs]

theorem sendHelloAck_endpoint (echo : Nonce) (dest : Endpoint) :
    (sendHelloAck C E s echo dest T).peerEndpoint = s.peerEndpoint := by
  have hspend := spendFor_endpoint (C := C) (s := s) (T := T) dest
  unfold sendHelloAck
  split
  · next heq => rwa [heq] at hspend
  · next u heq =>
    rw [heq] at hspend
    have hsend := sendPacket_endpoint (C := C) (E := E) (s := u) .helloAck
      (encodeHello ⟨echo, C.localVirtualIp⟩) dest
    split <;> next heq' =>
      rw [heq'] at hsend
      exact hsend.trans hspend

theorem sendPong_endpoint (pingId : U64) (dest : Endpoint) :
    (sendPong C E s pingId dest T).peerEndpoint = s.peerEndpoint := by
  have hspend := spendFor_endpoint (C := C) (s := s) (T := T) dest
  unfold sendPong
  split
  · next heq => rwa [heq] at hspend
  · next heq =>
    rw [heq] at hspend
    exact (sendPacket_endpoint _ _ _).trans hspend

theorem takePong_core (pingId : U64) : SameCore s (takePong E s pingId) := by
  unfold takePong
  dsimp only
  split
  · have hread := readRttClock_core (E := E) (s := s)
    refine hread.trans ⟨rfl, rfl, rfl, rfl, rfl, rfl, rfl, rfl, rfl, rfl, rfl, rfl, ?_⟩
    simp only [Session.emit, sentOf_append]
    exact List.append_nil _
  · constructor <;> rfl

theorem takeRoster_core (r : Roster) : SameCore s (takeRoster s r) := by
  unfold takeRoster
  split
  · constructor <;> rfl
  · refine ⟨rfl, rfl, rfl, rfl, rfl, rfl, rfl, rfl, rfl, rfl, rfl, rfl, ?_⟩
    simp only [Session.emit, sentOf_append]
    exact List.append_nil _

theorem act_endpoint (p : RxPacket) (pass : EpochPass) (body : Body) (before : SessionState) :
    (act C E s p pass body before T).peerEndpoint = s.peerEndpoint := by
  unfold act
  split
  · exact sendHelloAck_endpoint _ _
  · rfl
  · split <;> rfl
  · cases body with
    | ping pingId => exact sendPong_endpoint _ _
    | pong pingId => exact (takePong_core _).endpoint
    | roster r => exact (takeRoster_core _).endpoint
    | data =>
      simp only [actOther]
      split <;> rfl
    | _ => rfl

/-! ## Side effects -/

theorem act_moves {u : Session} {p : RxPacket} {pass : EpochPass} (hrx : rx = some p)
    (hpass : Passed C s₀ u p T pass) (body : Body) (before : SessionState) :
    Moves C E s₀ rx T s (act C E s p pass body before T) := by
  unfold act
  split
  · next h r =>
    obtain ⟨htype, hcheck⟩ := hpass.hello h r rfl
    exact .single (.ack s p h hrx htype hcheck)
  · exact .refl
  · next h =>
    obtain ⟨htype, hcheck, -, hnonce, -⟩ := hpass.ack h none rfl
    split
    · exact .quiet (count_core _)
    · exact .single (.confirm s p h hrx htype hcheck (hnonce rfl))
  · cases body with
    | ping pingId => exact .single (.pong s p pingId hrx)
    | pong pingId => exact .quiet (takePong_core _)
    | roster r => exact .quiet (takeRoster_core _)
    | data =>
      simp only [actOther]
      split
      · exact .quiet (emit_core rfl)
      · exact .refl
    | _ => exact .refl

theorem learnSource_moves {p : RxPacket} {pass : EpochPass} {d : ReplayDecision}
    (hrx : rx = some p)
    (hanswers : ∀ h i, pass = .ack h (some i) → d.advanced = true → Answers s₀ p T) :
    Moves C E s₀ rx T s (learnSource C s p pass d).2 ∧
      ((learnSource C s p pass d).1 = true →
        isVerified C (learnSource C s p pass d).2 p.source = false) := by
  unfold learnSource
  split
  · next h i =>
    dsimp only
    refine ⟨?_, fun hf => by cases hf⟩
    split_ifs with hadv
    · exact .head (.answer s i) (.single (.learn _ p hrx (.inr (hanswers h i rfl hadv))))
    · exact .single (.answer s i)
  · split_ifs with hadv hv
    · exact ⟨.single (.learn s p hrx (.inl hv)), fun hf => by cases hf⟩
    · exact ⟨.refl, fun _ => by simpa using hv⟩
    · exact ⟨.refl, fun hf => by cases hf⟩

theorem isVerified_congr {e : Endpoint} (h : s'.peerEndpoint = s.peerEndpoint) :
    isVerified C s' e = isVerified C s e := by
  simp only [isVerified, h]

theorem applyEffects_moves {u : Session} (hl : Live s) {p : RxPacket} {pass : EpochPass}
    {d : ReplayDecision} (hrx : rx = some p) (hpass : Passed C s₀ u p T pass)
    (hanswers : ∀ h i, pass = .ack h (some i) → d.advanced = true → Answers s₀ p T)
    (body : Body) :
    Moves C E s₀ rx T s (applyEffects C E s p pass d body T).2 := by
  have hsame := (pin_same (s := s) p.header.sessionEpoch).trans
    (learnSource_same (C := C) p pass d)
  obtain ⟨hlearn, hunverified⟩ := learnSource_moves (C := C) (E := E) 
    (s := pin s p.header.sessionEpoch) hrx hanswers
  unfold applyEffects
  dsimp only
  refine .head (.pin s p hrx) (hlearn.trans ?_)
  generalize learnSource C (pin s p.header.sessionEpoch) p pass d = r at hsame hunverified ⊢
  obtain ⟨probeSource, v⟩ := r
  have hterm : v.terminal = none := hsame.terminal.trans hl.terminal
  have hidle : SameCore v (renewIdle v s.state T) := by
    unfold renewIdle
    split_ifs <;> constructor <;> rfl
  refine (Moves.quiet hidle).trans ?_
  generalize renewIdle v s.state T = w at hidle ⊢
  have tail : Moves C E s₀ rx T w (dropWithoutSink E (settle C E (raiseSource C E
      (act C E w p pass body s.state T) p.source probeSource T) s.state T) body).2 := by
    refine (act_moves hrx hpass body s.state).trans ?_
    obtain ⟨got, sent, -, -, hact⟩ := act_same (C := C) (E := E) (s := w) (T := T)
      p pass body s.state
    have hraise : Moves C E s₀ rx T (act C E w p pass body s.state T)
        (raiseSource C E (act C E w p pass body s.state T) p.source probeSource T) := by
      unfold raiseSource
      split_ifs with hprobe
      · refine .single (.probe _ p hrx (hact.terminal.trans (hidle.terminal.trans hterm)) ?_)
        rw [isVerified_congr ((act_endpoint p pass body s.state).trans hidle.endpoint)]
        exact hunverified hprobe
      · exact .refl
    refine hraise.trans ((settle_moves s.state).trans ?_)
    unfold dropWithoutSink
    split_ifs
    · exact Moves.quiet (count_core _)
    · exact .refl
  cases body with
  | close reason =>
    refine .head (.quiet (v := { w with peerCloseReason := some reason }) ?_)
      (.single (.terminate _ .closed))
    constructor <;> rfl
  | _ => exact tail

theorem receive_moves (hl : Live s) {p : RxPacket} :
    Moves C E s (some p) T s (receive C E s p T).2 := by
  obtain ⟨hle, -⟩ := checkEpoch_live (C := C) (E := E) (T := T) hl p
  obtain ⟨hmoves, hpassed⟩ := checkEpoch_moves (C := C) (E := E) (s := s) (T := T) (p := p)
    (show some p = some p from rfl)
  unfold receive
  rw [active_of_live hl.terminal]
  simp only [Bool.not_true, Bool.false_eq_true, if_false]
  generalize checkEpoch C E s p T = r at hle hmoves hpassed ⊢
  obtain ⟨u, c | pass⟩ := r
  · exact hmoves.trans (Moves.quiet (count_core _))
  have hpass := hpassed pass rfl
  refine hmoves.trans (.head (.record u p rfl) ?_)
  have hlr := (recordPacket_same (s := u) p.header.sequence).live hle
  have hd : (recordPacket u p.header.sequence).1 = u.window.check p.header.sequence := rfl
  dsimp only [receivePassed]
  generalize recordPacket u p.header.sequence = r at hlr hd ⊢
  obtain ⟨d, v⟩ := r
  have hcore := checkType_core (C := C) (s := v) (T := T) p
  have hlt := (checkType_same (C := C) (s := v) (T := T) p).live hlr
  dsimp only
  split
  · exact Moves.quiet (count_core _)
  · exact Moves.quiet (count_core _)
  · refine (Moves.quiet hcore).trans ?_
    generalize checkType C v p T = r at hlt ⊢
    obtain ⟨w, c | body⟩ := r
    · exact Moves.quiet (count_core _)
    dsimp only
    split_ifs
    · unfold afterRenegotiation
      dsimp only
      split_ifs with hv
      · exact .refl
      · exact .single (.probe w p rfl hlt.terminal (by simpa using hv))
    · refine applyEffects_moves hlt rfl hpass ?_ body
      intro h i heq hadv
      obtain ⟨htype, hcheck, hwindow, -, hprobe⟩ := hpass.ack h (some i) heq
      obtain ⟨hpinned, q, hq, hn, hdest, htime⟩ := hprobe i rfl
      refine ⟨htype, hpinned, ?_, h, q, (checkHello_decode hcheck).1, hq, hn, hdest, htime⟩
      rw [← hwindow, ← hd]
      simpa [ReplayDecision.advanced] using hadv

def Op.packet : Op → Option RxPacket
  | .receive p => some p
  | _ => none

theorem step_moves (h : Live s ∨ ∃ st, Ended s st) (op : Op) :
    Moves C E { s with out := [] } op.packet T { s with out := [] }
      (step C E s op T) := by
  cases op with
  | startPunch => exact startPunch_moves
  | poll => exact poll_moves
  | receive p =>
    rcases h with h | ⟨st, h⟩
    · exact receive_moves (s := { s with out := [] }) ⟨h.terminal, h.failure, h.timers⟩
    · have hnot : ({ s with out := [] } : Session).active = false :=
        not_active_of_ended (s := { s with out := [] })
          ⟨h.terminal, h.isTerminal, h.timers, h.probes, h.failure⟩
      simp only [step, Op.apply, Peer.receive, hnot]
      exact Moves.quiet (count_core _)
  | sendData inner => exact sendData_moves inner
  | sendRoster payload => exact sendToPeer_moves (by decide) (by decide) payload
  | closeByUser => exact closeByUser_moves

theorem execution_past {h : List Entry} {t : Millis} (hx : Execution C E h t s) :
    ∀ e ∈ h, e.now ≤ t := by
  induction hx with
  | start t => exact fun e he => absurd he List.not_mem_nil
  | call op now _ hle ih =>
    intro e he
    rcases List.mem_append.mp he with he | he
    · exact (ih e he).trans hle
    · rw [List.mem_singleton.mp he]

theorem execution_live_or_ended {h : List Entry} {t : Millis} (hx : Execution C E h t s) :
    Live s ∨ ∃ st, Ended s st := by
  have hr := execution_runControl hx
  rcases hterm : s.terminal with _ | st
  · exact .inl (hr.live hterm).1
  · exact .inr ⟨st, (hr.ended st hterm).1⟩

end Sangtachi.Peer
