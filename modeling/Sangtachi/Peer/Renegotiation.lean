import Sangtachi.Peer.Notices

/-! # Renegotiations of a run

A peer that comes back with a new epoch makes the session start over, at most eight times and not
twice within a second. Each start gives the punch one more deadline, so a session that is polled
in time waits for its peer no longer than its deadlines add up to. -/
namespace Sangtachi.Peer

open Sangtachi.BigEndian Sangtachi.Packet Sangtachi.Replay Sangtachi.InnerIpv4

variable {C : SessionConfig} {E : SessionIo} {s s' t : Session} {T : Millis}

/-! ## What leaves the punch deadline alone -/

/-- No renegotiation and no start of the punch; its deadline may be cancelled. -/
structure SameLimits (s s' : Session) : Prop where
  punch_started : s'.punchStarted = s.punchStarted
  renegotiations : s'.renegotiations = s.renegotiations
  last_renegotiation : s'.lastRenegotiation = s.lastRenegotiation
  punch : s'.punch.due = s.punch.due ∨ s'.punch.due = none

theorem SameLimits.refl (s : Session) : SameLimits s s := ⟨rfl, rfl, rfl, .inl rfl⟩

theorem SameLimits.trans (h : SameLimits s s') (k : SameLimits s' t) : SameLimits s t where
  punch_started := k.punch_started.trans h.punch_started
  renegotiations := k.renegotiations.trans h.renegotiations
  last_renegotiation := k.last_renegotiation.trans h.last_renegotiation
  punch := by
    rcases k.punch with hpunch | hnone
    · rw [hpunch]
      exact h.punch
    · exact .inr hnone

theorem SameControl.limits (h : SameControl s s') : SameLimits s s' :=
  ⟨h.punch_started, h.renegotiations, h.last_renegotiation, .inl (congrArg Timer.due h.punch)⟩

theorem sendKeepalive_limits : SameLimits s (sendKeepalive C E s T) := by
  have h :=
    sendToPeer_same (C := C) (E := E) (s := s) (show PacketType.keepalive ≠ .close by decide) []
  exact ⟨h.punch_started, h.renegotiations, h.last_renegotiation, .inl (congrArg Timer.due h.punch)⟩

theorem settle_limits (before : SessionState) : SameLimits s (settle C E s before T) := by
  unfold settle
  dsimp only
  split_ifs
  · exact .refl s
  · have hentered : SameLimits s (enterConnected C E s T) := by
      unfold enterConnected
      apply SameLimits.trans _ sendKeepalive_limits
      exact ⟨rfl, rfl, rfl, .inr rfl⟩
    exact hentered.trans (emit_same rfl).limits
  · exact (emit_same rfl).limits

theorem enterTerminal_limits (terminal : SessionState) :
    SameLimits s (enterTerminal s terminal T) :=
  ⟨rfl, rfl, rfl, .inr rfl⟩

theorem sendClose_limits (reason : CloseReason) : SameLimits s (sendClose C E s reason) := by
  unfold sendClose
  split
  · exact .refl s
  · next e _ =>
    obtain ⟨counters, calls, hsent, -⟩ :=
      sendPacket_spec (C := C) (E := E) s .close (encodeClose reason) e
    rw [hsent]
    exact ⟨rfl, rfl, rfl, .inl rfl⟩

theorem fail_limits (failure : SessionFailure) : SameLimits s (fail C E s failure T) := by
  have hstopped : SameLimits s (stopTimers s) := ⟨rfl, rfl, rfl, .inr rfl⟩
  have hclosed := hstopped.trans (sendClose_limits (C := C) (E := E) .setupFailed)
  unfold fail
  dsimp only
  apply SameLimits.trans _ (enterTerminal_limits _)
  exact ⟨hclosed.punch_started, hclosed.renegotiations, hclosed.last_renegotiation, hclosed.punch⟩

theorem closeByUser_limits : SameLimits s (closeByUser C E s T) := by
  unfold closeByUser
  split_ifs
  · exact .refl s
  · exact (sendClose_limits _).trans (enterTerminal_limits _)
  · exact (sendClose_limits _).trans (enterTerminal_limits _)

theorem pollHello_limits : SameLimits s (pollHello C E s T) := by
  unfold pollHello
  split_ifs
  · have h :=
      (tick_same (s := s) (T := T) .hello s.hello).trans (sendHelloRound_same (C := C) (E := E))
    exact ⟨h.punch_started, h.renegotiations, h.last_renegotiation,
      .inl (congrArg Timer.due h.punch)⟩
  · exact .refl s

theorem pollKeepalive_limits : SameLimits s (pollKeepalive C E s T) := by
  unfold pollKeepalive
  split_ifs
  · exact (tick_same _ _).limits.trans sendKeepalive_limits
  · exact .refl s

theorem pollPing_limits : SameLimits s (pollPing C E s T) := by
  unfold pollPing
  split_ifs
  · apply (tick_same (s := s) (T := T) .ping s.ping).limits.trans
    have h := sendPing_same (C := C) (E := E) (s := emitTick s .ping s.ping T) (T := T)
    exact ⟨h.punch_started, h.renegotiations, h.last_renegotiation,
      .inl (congrArg Timer.due h.punch)⟩
  · exact .refl s

theorem poll_limits : SameLimits s (poll C E s T) := by
  have hexpired := (expireProbes_same (s := s) (T := T)).limits
  unfold poll
  dsimp only
  split_ifs
  · exact .refl s
  · exact hexpired.trans ((tick_same _ _).limits.trans (fail_limits _))
  · exact hexpired.trans ((tick_same _ _).limits.trans (fail_limits _))
  · exact hexpired.trans ((tick_same _ _).limits.trans (fail_limits _))
  · exact hexpired.trans (pollHello_limits.trans (pollKeepalive_limits.trans pollPing_limits))

/-! ## Receiving without a renegotiation -/

theorem applyEffects_limits (p : RxPacket) (pass : EpochPass) (d : ReplayDecision) (body : Body) :
    SameLimits s (applyEffects C E s p pass d body T).2 := by
  have hlearned :=
    ((pin_same (s := s) p.header.sessionEpoch).trans (learnSource_same (C := C) p pass d)).limits
  unfold applyEffects
  dsimp only
  generalize learnSource C (pin s p.header.sessionEpoch) p pass d = learned at hlearned ⊢
  obtain ⟨probeSource, u⟩ := learned
  have hrenewed : SameLimits s (renewIdle u s.state T) := by
    apply hlearned.trans
    unfold renewIdle
    split_ifs
    · exact ⟨rfl, rfl, rfl, .inl rfl⟩
    · exact .refl u
  dsimp only
  generalize renewIdle u s.state T = v at hrenewed ⊢
  have hsettled :
    SameLimits s (dropWithoutSink E (settle C E (raiseSource C E (act C E v p pass body s.state T)
      p.source probeSource T) s.state T) body).2 := by
    obtain ⟨got, sent, -, -, hact⟩ :=
      act_same (C := C) (E := E) (s := v) (T := T) p pass body s.state
    have hacted : SameLimits v (act C E v p pass body s.state T) :=
      ⟨hact.punch_started, hact.renegotiations, hact.last_renegotiation,
        .inl (congrArg Timer.due hact.punch)⟩
    exact hrenewed.trans (hacted.trans ((raiseSource_same _ _).limits.trans
      ((settle_limits _).trans dropWithoutSink_same.limits)))
  cases body with
  | close reason => exact hrenewed.trans ⟨rfl, rfl, rfl, .inr rfl⟩
  | bare => exact hsettled
  | data => exact hsettled
  | ping pingId => exact hsettled
  | pong pingId => exact hsettled
  | roster r => exact hsettled

/-- The call takes a HELLO of a new epoch and starts over. -/
def renegotiates (C : SessionConfig) (E : SessionIo) (s : Session) (p : RxPacket)
    (T : Millis) : Bool :=
  s.active && match (checkEpoch C E s p T).2 with
    | .ok pass => pass.renegotiated
    | .error _ => false

/-- A reception renegotiates within the two limits, or it changes nothing about them. -/
theorem receive_limits (s : Session) (p : RxPacket) (T : Millis) :
    (renegotiates C E s p T = false ∧ SameLimits s (receive C E s p T).2) ∨
    (renegotiates C E s p T = true ∧
      (∀ last, s.lastRenegotiation = some last → timeAfter last minRenegIntervalMs ≤ T) ∧
      s.renegotiations < maxRenegotiations ∧ ∃ h old, p.type = some .hello ∧ s.pinned = some old ∧
        p.header.sessionEpoch ≠ old ∧
        checkEpoch C E s p T = (renegotiate C E s p h.nonce T, .ok (.hello h true)) ∧
        (receive C E s p T).2 =
          afterRenegotiation C E (recorded (renegotiate C E s p h.nonce T) p) p T) := by
  have hexpired : ∀ {u}, u = s ∨ u = expireProbes s T → SameLimits s u := by
    rintro u (rfl | rfl)
    · exact .refl _
    · exact expireProbes_same.limits
  have hreceived := receive_cases (C := C) (E := E) s p T
  have hchecked := checkEpoch_cases (C := C) (E := E) s p T
  unfold renegotiates
  generalize receive C E s p T = result at hreceived ⊢
  cases hreceived with
  | inactive hactive =>
    left
    rw [hactive]
    exact ⟨rfl, (count_same _).limits⟩
  | refused u c hactive hcheck =>
    left
    rw [hcheck] at hchecked ⊢
    cases hchecked with
    | refused _ _ hu => exact ⟨by rw [hactive]; rfl, (hexpired hu).trans (count_same _).limits⟩
  | repeated u pass c hactive hcheck hrejected =>
    left
    rw [hcheck] at hchecked ⊢
    cases hchecked with
    | passed _ _ hu hnot _ _ => exact ⟨by simp [hnot], (hexpired hu).trans (count_same _).limits⟩
    | renegotiated h old htype hold hne =>
      rw [(renegotiated_passes _ htype hold).1] at hrejected
      cases hrejected
  | invalid u w pass c hactive hcheck haccepted htyped =>
    left
    have hw :=
      (recordPacket_same (s := u) p.header.sequence).trans (checkType_same (C := C) (T := T) p)
    change SameControl u (checkType C (recorded u p) p T).1 at hw
    rw [htyped] at hw
    rw [hcheck] at hchecked ⊢
    cases hchecked with
    | passed _ _ hu hnot _ _ =>
      exact ⟨by simp [hnot], (hexpired hu).trans (hw.trans (count_same _)).limits⟩
    | renegotiated h old htype hold hne =>
      rw [(renegotiated_passes _ htype hold).2] at htyped
      simp at htyped
  | renegotiated u w pass body hactive hcheck haccepted htyped hreneg =>
    right
    rw [hcheck] at hchecked ⊢
    cases hchecked with
    | passed _ _ _ hnot _ _ =>
      rw [hreneg] at hnot
      cases hnot
    | renegotiated h old htype hold hne hrate hlimit =>
      rw [(renegotiated_passes _ htype hold).2] at htyped
      obtain ⟨rfl, -⟩ := Prod.mk.inj htyped
      exact ⟨by rw [hactive]; rfl, hrate, hlimit, h, old, htype, hold, hne, rfl, rfl⟩
  | applied u w pass body hactive hcheck haccepted htyped hnot =>
    left
    have hw :=
      (recordPacket_same (s := u) p.header.sequence).trans (checkType_same (C := C) (T := T) p)
    change SameControl u (checkType C (recorded u p) p T).1 at hw
    rw [htyped] at hw
    rw [hcheck] at hchecked ⊢
    cases hchecked with
    | passed _ _ hu _ _ _ =>
      exact ⟨by simp [hnot], (hexpired hu).trans (hw.limits.trans (applyEffects_limits _ _ _ _))⟩
    | renegotiated h old htype hold hne => cases hnot

/-! ## What a renegotiation keeps -/

/-- The endpoint, the probes, the ping ids and the roster are those of the attempt so far. -/
structure SameAttempt (s s' : Session) : Prop where
  endpoint : s'.peerEndpoint = s.peerEndpoint
  probes : s'.probes = s.probes
  next_ping : s'.nextPingId = s.nextPingId
  generation : s'.lastGeneration = s.lastGeneration

theorem SameAttempt.refl (s : Session) : SameAttempt s s := ⟨rfl, rfl, rfl, rfl⟩

theorem SameAttempt.trans (h : SameAttempt s s') (k : SameAttempt s' t) : SameAttempt s t :=
  ⟨k.endpoint.trans h.endpoint, k.probes.trans h.probes, k.next_ping.trans h.next_ping,
    k.generation.trans h.generation⟩

theorem sendPacket_attempt (type : PacketType) (payload : List U8) (dest : Endpoint) :
    SameAttempt s (sendPacket C E s type payload dest).2 := by
  obtain ⟨counters, calls, hsent, -⟩ := sendPacket_spec (C := C) (E := E) s type payload dest
  rw [hsent]
  exact ⟨rfl, rfl, rfl, rfl⟩

theorem sendEach_attempt (type : PacketType) (payload : List U8) (dests : List Endpoint) :
    SameAttempt s (sendEach C E s type payload dests) := by
  induction dests generalizing s with
  | nil => exact .refl s
  | cons e rest ih => exact (sendPacket_attempt type payload e).trans ih

theorem sendToPeer_attempt (type : PacketType) (payload : List U8) :
    SameAttempt s (sendToPeer C E s type payload) := by
  unfold sendToPeer
  split
  · exact sendPacket_attempt _ _ _
  · exact sendEach_attempt _ _ _

theorem spendFor_attempt (dest : Endpoint) : SameAttempt s (spendFor C s dest T).2 := by
  unfold spendFor
  split
  · exact .refl s
  · have hrefilled : SameAttempt s (refillBudget s T) := by
      unfold refillBudget
      split
      · exact ⟨rfl, rfl, rfl, rfl⟩
      · exact .refl s
    apply hrefilled.trans
    dsimp only
    split <;> exact ⟨rfl, rfl, rfl, rfl⟩

theorem sendHelloAck_attempt (echo : Nonce) (dest : Endpoint) :
    SameAttempt s (sendHelloAck C E s echo dest T) := by
  have hspent := spendFor_attempt (C := C) (s := s) (T := T) dest
  unfold sendHelloAck
  split
  · next heq =>
    rw [heq] at hspent
    exact hspent
  · next u heq =>
    rw [heq] at hspent
    have hsent := sendPacket_attempt (C := C) (E := E) (s := u) .helloAck
      (encodeHello ⟨echo, C.localVirtualIp⟩) dest
    split
    · next heq' =>
      rw [heq'] at hsent
      exact hspent.trans ⟨hsent.endpoint, hsent.probes, hsent.next_ping, hsent.generation⟩
    · next heq' =>
      rw [heq'] at hsent
      exact hspent.trans ⟨hsent.endpoint, hsent.probes, hsent.next_ping, hsent.generation⟩

theorem settle_attempt (before : SessionState) : SameAttempt s (settle C E s before T) := by
  unfold settle
  dsimp only
  split_ifs
  · exact .refl s
  · have hsent := sendToPeer_attempt (C := C) (E := E) (s := { s with
      hello := { s.hello with due := none }, punch := { s.punch with due := none }
      lossBaseline := some s.window.position, lossAccepted := 0
      idle := arm T idleTimeoutMs, ping := arm T pingIntervalMs }) .keepalive []
    exact ⟨hsent.endpoint, hsent.probes, hsent.next_ping, hsent.generation⟩
  · exact ⟨rfl, rfl, rfl, rfl⟩

theorem renegotiate_attempt (p : RxPacket) (nonce : Nonce) :
    SameAttempt s (renegotiate C E s p nonce T) := by
  unfold renegotiate
  dsimp only
  have hanswered := sendHelloAck_attempt (C := C) (E := E) (T := T)
    (s := resetForEpoch s p.header.sessionEpoch T) nonce p.source
  generalize sendHelloAck C E (resetForEpoch s p.header.sessionEpoch T) nonce p.source T =
    u at hanswered ⊢
  have hstopped : SameAttempt s (stopTraffic u) :=
    ⟨hanswered.endpoint, hanswered.probes, hanswered.next_ping, hanswered.generation⟩
  have hrestarted : SameAttempt s (restartPunch C E (stopTraffic u) T) := by
    apply hstopped.trans
    unfold restartPunch
    split_ifs
    · have hround := sendEach_attempt (C := C) (E := E)
        (s := { stopTraffic u with punch := arm T punchDeadlineMs })
        .hello (encodeHello ⟨C.attemptNonce, C.localVirtualIp⟩) C.candidates
      exact ⟨hround.endpoint, hround.probes, hround.next_ping, hround.generation⟩
    · exact .refl _
  exact hrestarted.trans (settle_attempt _)

theorem renegotiate_punch (p : RxPacket) (nonce : Nonce) :
    (renegotiate C E s p nonce T).punchStarted = s.punchStarted ∧
    (renegotiate C E s p nonce T).renegotiations = s.renegotiations + 1 ∧
    (renegotiate C E s p nonce T).lastRenegotiation = some T ∧
    (s.punchStarted = true →
      (renegotiate C E s p nonce T).punch.due = some (timeAfter T punchDeadlineMs) ∨
      (renegotiate C E s p nonce T).punch.due = none) := by
  have hreset := resetForEpoch_same (s := s) (T := T) p.header.sessionEpoch
  obtain ⟨sent, -, hack⟩ := sendHelloAck_same (C := C) (E := E) (T := T)
    (s := resetForEpoch s p.header.sessionEpoch T) nonce p.source
  unfold renegotiate
  dsimp only
  generalize sendHelloAck C E (resetForEpoch s p.header.sessionEpoch T) nonce p.source
    T = u at hack ⊢
  obtain ⟨hello, punch, hsame, hset⟩ :=
    restartPunch_same (C := C) (E := E) (T := T) (s := stopTraffic u)
  have hsettled :=
    settle_limits (C := C) (E := E) (T := T) (s := restartPunch C E (stopTraffic u) T) s.state
  have hstarted : (stopTraffic u).punchStarted = s.punchStarted :=
    hack.punch_started.trans hreset.punch_started
  refine ⟨?_, ?_, ?_, ?_⟩
  · exact hsettled.punch_started.trans (hsame.punch_started.trans hstarted)
  · exact hsettled.renegotiations.trans
      (hsame.renegotiations.trans (hack.renegotiations.trans hreset.renegotiations))
  · exact hsettled.last_renegotiation.trans
      (hsame.last_renegotiation.trans (hack.last_renegotiation.trans hreset.last_renegotiation))
  · intro hpunch
    rw [if_pos (hstarted.trans hpunch)] at hset
    rcases hsettled.punch with hkept | hnone
    · left
      rw [hkept, hsame.punch, hset.2]
      rfl
    · exact .inr hnone

/-- A new path costs the table only the probes whose lifetime is over. -/
theorem startPathProbe_attempt (source : Endpoint) :
    (startPathProbe C E s source T).peerEndpoint = s.peerEndpoint ∧
    (startPathProbe C E s source T).nextPingId = s.nextPingId ∧
    (startPathProbe C E s source T).lastGeneration = s.lastGeneration ∧
    (∀ q ∈ s.probes, q.expired T = false → q ∈ (startPathProbe C E s source T).probes) ∧
    ∀ q ∈ (startPathProbe C E s source T).probes, q ∈ s.probes ∨ q.dest = source := by
  have hlive : ∀ q ∈ s.probes, q.expired T = false → q ∈ (expireProbes s T).probes := by
    intro q hq halive
    exact List.mem_filter.mpr ⟨hq, by rw [halive]; rfl⟩
  have hold : ∀ q ∈ (expireProbes s T).probes, q ∈ s.probes ∨ q.dest = source :=
    fun q hq => .inl (List.mem_filter.mp hq).1
  have hsame : ∀ {u : Session}, SameAttempt (expireProbes s T) u →
      u.peerEndpoint = s.peerEndpoint ∧ u.nextPingId = s.nextPingId ∧
      u.lastGeneration = s.lastGeneration ∧
      (∀ q ∈ s.probes, q.expired T = false → q ∈ u.probes) ∧ ∀ q ∈ u.probes, q ∈ s.probes ∨
      q.dest = source := by
    intro u h
    refine ⟨h.endpoint, h.next_ping, h.generation, ?_, ?_⟩
    · rw [h.probes]
      exact hlive
    · rw [h.probes]
      exact hold
  unfold startPathProbe
  dsimp only
  split
  · exact hsame (.refl _)
  split
  · exact hsame ⟨rfl, rfl, rfl, rfl⟩
  split
  · exact hsame ⟨rfl, rfl, rfl, rfl⟩
  · next nonce _ =>
    have hspent := spendFor_attempt (C := C) (T := T)
      (s := { expireProbes s T with draws := (expireProbes s T).draws + 1 }) source
    split
    · next heq =>
      rw [heq] at hspent
      exact hsame ⟨hspent.endpoint, hspent.probes, hspent.next_ping, hspent.generation⟩
    · next u heq =>
      rw [heq] at hspent
      have hsent := sendPacket_attempt (C := C) (E := E)
        (s := { u with probes := u.probes ++ [⟨source, nonce, T, false⟩] })
        .hello (encodeHello ⟨nonce, C.localVirtualIp⟩) source
      have hprobes : u.probes = (expireProbes s T).probes := hspent.probes
      refine ⟨hsent.endpoint.trans hspent.endpoint, hsent.next_ping.trans hspent.next_ping,
        hsent.generation.trans hspent.generation, ?_, ?_⟩
      · intro q hq halive
        rw [hsent.probes]
        apply List.mem_append_left
        rw [hprobes]
        exact hlive q hq halive
      · intro q hq
        rw [hsent.probes] at hq
        rcases List.mem_append.mp hq with hq | hq
        · rw [hprobes] at hq
          exact hold q hq
        · obtain rfl := List.mem_singleton.mp hq
          exact .inr rfl

/-! ## Runs -/

/-- The call took a HELLO of a new epoch and started over. -/
def Entry.accepts (C : SessionConfig) (E : SessionIo) (e : Entry) : Bool :=
  match e.op with
  | .receive p => renegotiates C E { e.before with out := [] } p e.now
  | _ => false

def acceptedTimes (C : SessionConfig) (E : SessionIo) (h : List Entry) : List Millis :=
  (h.filter (Entry.accepts C E)).map Entry.now

/-- Active and not connected after the start of the punch. -/
def Session.waiting (s : Session) : Bool := s.active && s.punchStarted && s.state ≠ .connected

/-- The time between the calls of a run through which the session waited. -/
def waited : List Entry → Millis
  | [] => 0
  | [_] => 0
  | a :: b :: rest => (if b.before.waiting then b.now - a.now else 0) + waited (b :: rest)

/-- No deadline passes before the poll at it. -/
def Prompt (h : List Entry) : Prop := ∀ e ∈ h, ∀ d, nextDeadline e.before = some d → e.now ≤ d

/-- What one call does about the limits of the renegotiations and the deadline of the punch. -/
inductive Limited (C : SessionConfig) (E : SessionIo) (s : Session) (op : Op) (T : Millis)
    (s' : Session) : Prop where
  | held (hnot : Entry.accepts C E ⟨T, op, s, s'⟩ = false) (h : SameLimits s s')
  | started (hnot : Entry.accepts C E ⟨T, op, s, s'⟩ = false) (hbefore : s.punchStarted = false)
      (hcount : s'.renegotiations = s.renegotiations)
      (hlast : s'.lastRenegotiation = s.lastRenegotiation)
      (harmed : s'.punch.due = some (timeAfter T punchDeadlineMs) ∨ s'.punch.due = s.punch.due)
  | renegotiated (htaken : Entry.accepts C E ⟨T, op, s, s'⟩ = true)
      (hrate : ∀ last, s.lastRenegotiation = some last → timeAfter last minRenegIntervalMs ≤ T)
      (hlimit : s.renegotiations < maxRenegotiations) (hstarted : s'.punchStarted = s.punchStarted)
      (hcount : s'.renegotiations = s.renegotiations + 1) (hlast : s'.lastRenegotiation = some T)
      (harmed : s.punchStarted = true → s'.punch.due = some (timeAfter T punchDeadlineMs) ∨
        s'.punch.due = none)

theorem step_limited (s : Session) (op : Op) (T : Millis) :
    Limited C E s op T (step C E s op T) := by
  have hclear : SameLimits s { s with out := [] } := ⟨rfl, rfl, rfl, .inl rfl⟩
  cases op with
  | startPunch =>
    change Limited C E s .startPunch T (startPunch C E { s with out := [] } T).2
    unfold startPunch
    dsimp only
    split_ifs with hidle hconnected
    · exact .held rfl hclear
    · exact .started rfl (by simpa using (not_or.mp hidle).2) rfl rfl (.inr rfl)
    · have hround :=
        sendHelloRound_same (C := C) (E := E) (s := { s with punchStarted := true, out := [] })
      exact .started rfl (by simpa using (not_or.mp hidle).2) hround.renegotiations
        hround.last_renegotiation (.inl rfl)
  | poll => exact .held rfl (hclear.trans poll_limits)
  | receive p =>
    change Limited C E s (.receive p) T (receive C E { s with out := [] } p T).2
    rcases receive_limits (C := C) (E := E) { s with out := [] } p T with
      ⟨hnot, h⟩ | ⟨htaken, hrate, hlimit, hello, old, -, -, -, -, hafter⟩
    · exact .held hnot (hclear.trans h)
    · obtain ⟨hstarted, hcount, hlast, harmed⟩ :=
        renegotiate_punch (C := C) (E := E) (T := T) (s := { s with out := [] }) p hello.nonce
      rw [hafter]
      generalize renegotiate C E { s with out := [] } p hello.nonce T =
        u at hstarted hcount hlast harmed ⊢
      have hsame : SameControl u (afterRenegotiation C E (recorded u p) p T) := by
        apply (recordPacket_same (s := u) p.header.sequence).trans
        unfold afterRenegotiation
        split_ifs
        · exact .refl _
        · exact startPathProbe_same _
      refine .renegotiated htaken hrate hlimit (hsame.punch_started.trans hstarted)
        (hsame.renegotiations.trans hcount)
        (hsame.last_renegotiation.trans hlast) ?_
      rw [hsame.punch]
      exact harmed
  | sendData inner => exact .held rfl (hclear.trans (sendData_same _).limits)
  | sendRoster payload => exact .held rfl (hclear.trans (sendToPeer_same (by decide) _).limits)
  | closeByUser => exact .held rfl (hclear.trans closeByUser_limits)

/-- The two limits over a run. -/
structure Within (C : SessionConfig) (E : SessionIo) (h : List Entry) (s : Session) : Prop where
  count : s.renegotiations = (acceptedTimes C E h).length
  last : s.lastRenegotiation = (acceptedTimes C E h).getLast?
  limit : s.renegotiations ≤ maxRenegotiations
  spaced : (acceptedTimes C E h).Pairwise fun a b => a + minRenegIntervalMs < 2 ^ 64 →
    a + minRenegIntervalMs ≤ b

theorem acceptedTimes_snoc (h : List Entry) (e : Entry) :
    acceptedTimes C E (h ++ [e]) = acceptedTimes C E h ++ if e.accepts C E = true then
    [e.now] else [] := by
  unfold acceptedTimes
  rw [List.filter_append, List.map_append]
  congr 1
  by_cases haccepts : e.accepts C E = true
  · rw [if_pos haccepts, List.filter_singleton, haccepts]
    rfl
  · rw [if_neg haccepts, List.filter_singleton]
    simp [haccepts]

theorem acceptedTimes_past {h : List Entry} {t : Millis} (hx : Execution C E h t s) :
    ∀ a ∈ acceptedTimes C E h, a ≤ t := by
  intro a ha
  obtain ⟨e, he, rfl⟩ := List.mem_map.mp ha
  exact execution_past hx e (List.mem_of_mem_filter he)

theorem step_within {h : List Entry} (hw : Within C E h s) (op : Op)
    (hpast : ∀ a ∈ acceptedTimes C E h, a ≤ T) :
    Within C E (h ++ [⟨T, op, s, step C E s op T⟩]) (step C E s op T) := by
  have hlimited := step_limited (C := C) (E := E) s op T
  generalize step C E s op T = s' at hlimited ⊢
  have hold : Entry.accepts C E ⟨T, op, s, s'⟩ = false → s'.renegotiations = s.renegotiations →
      s'.lastRenegotiation = s.lastRenegotiation → Within C E (h ++ [⟨T, op, s, s'⟩]) s' := by
    intro hnot hcount hlast
    have htimes : acceptedTimes C E (h ++ [⟨T, op, s, s'⟩]) = acceptedTimes C E h := by
      rw [acceptedTimes_snoc, hnot]
      simp
    constructor
    · rw [hcount, htimes]
      exact hw.count
    · rw [hlast, htimes]
      exact hw.last
    · rw [hcount]
      exact hw.limit
    · rw [htimes]
      exact hw.spaced
  cases hlimited with
  | held hnot hsame => exact hold hnot hsame.renegotiations hsame.last_renegotiation
  | started hnot _ hcount hlast _ => exact hold hnot hcount hlast
  | renegotiated htaken hrate hlimit _ hcount hlast _ =>
    have htimes : acceptedTimes C E (h ++ [⟨T, op, s, s'⟩]) = acceptedTimes C E h ++ [T] := by
      rw [acceptedTimes_snoc, if_pos htaken]
    constructor
    · rw [hcount, htimes, hw.count, List.length_append]
      rfl
    · rw [hlast, htimes, List.getLast?_concat]
    · omega
    · rw [htimes, List.pairwise_append]
      refine ⟨hw.spaced, List.pairwise_singleton _ _, ?_⟩
      intro a ha b hb hfits
      obtain rfl := List.mem_singleton.mp hb
      obtain ⟨pre, last, hsplit⟩ :=
        (List.eq_nil_or_concat' (acceptedTimes C E h)).resolve_left (List.ne_nil_of_mem ha)
      have hlatest : s.lastRenegotiation = some last := by
        rw [hw.last, hsplit, List.getLast?_concat]
      have hafter := hrate last hlatest
      rw [hsplit] at ha
      rcases List.mem_append.mp ha with ha | ha
      · have hspaced := hw.spaced
        rw [hsplit] at hspaced
        have hbefore :=
          (List.pairwise_append.mp hspaced).2.2 a ha last (List.mem_singleton_self last) hfits
        exact hbefore.trans
          (hpast last (hsplit ▸ List.mem_append_right _ (List.mem_singleton_self last)))
      · obtain rfl := List.mem_singleton.mp ha
        rwa [timeAfter_of_fits hfits] at hafter

theorem execution_within {h : List Entry} {t : Millis} (hx : Execution C E h t s) :
    Within C E h s := by
  induction hx with
  | start t => exact ⟨rfl, rfl, Nat.zero_le _, List.Pairwise.nil⟩
  | call op now hx hle ih =>
    exact step_within ih op fun a ha => (acceptedTimes_past hx a ha).trans hle

/-! ## The time spent waiting -/

theorem waited_snoc (h : List Entry) (a b : Entry) :
    waited (h ++ [a] ++ [b]) = waited (h ++ [a]) + if b.before.waiting then
    b.now - a.now else 0 := by
  induction h with
  | nil => simp [waited]
  | cons x rest ih =>
    cases rest with
    | nil => simp [waited]
    | cons y rest =>
      simp only [List.cons_append, waited] at ih ⊢
      rw [ih, Nat.add_assoc]

theorem earlier_le {a b : Option Millis} {d : Millis} (h : a = some d ∨ b = some d) :
    ∃ n, earlier a b = some n ∧ n ≤ d := by
  unfold earlier
  cases a with
  | none => exact ⟨d, h.resolve_left nofun, le_rfl⟩
  | some x =>
    cases b with
    | none => exact ⟨d, h.resolve_right nofun, le_rfl⟩
    | some y =>
      dsimp only
      split_ifs with hlt
      · rcases h with h | h
        · obtain rfl := Option.some.inj h
          exact ⟨y, rfl, hlt.le⟩
        · exact ⟨d, h, le_rfl⟩
      · rcases h with h | h
        · exact ⟨d, h, le_rfl⟩
        · obtain rfl := Option.some.inj h
          exact ⟨x, rfl, not_lt.mp hlt⟩

theorem nextDeadline_le_punch {d : Millis} (h : s.punch.due = some d) :
    ∃ n, nextDeadline s = some n ∧ n ≤ d := by
  unfold nextDeadline
  have hstep : ∀ {a b : Option Millis}, (∃ n, a = some n ∧ n ≤ d) →
    ∃ n, earlier a b = some n ∧ n ≤ d := by
    rintro a b ⟨m, hm, hle⟩
    obtain ⟨n, hn, hle'⟩ := earlier_le (b := b) (.inl hm)
    exact ⟨n, hn, hle'.trans hle⟩
  simp only [List.foldl_cons, List.foldl_nil]
  exact hstep (hstep (hstep (hstep (earlier_le (.inr h)))))

theorem waiting_iff_armed (h : Live s ∨ ∃ st, Ended s st) : s.waiting = true ↔
      s.punch.due.isSome = true := by
  unfold Session.waiting
  rcases h with hl | ⟨st, he⟩
  · rw [active_of_live hl.terminal]
    have htimers := hl.timers
    by_cases hconnected : s.state = .connected
    · rw [hconnected] at htimers ⊢
      rw [htimers.2.1]
      simp
    · rw [(timers_of_not_connected htimers (not_connected_of_live hl.terminal hconnected)).2.1]
      simp [hconnected]
  · have hpunch : s.punch.due = none := by
      have htimers := he.timers
      rcases he.isTerminal with rfl | rfl
      · exact htimers.2.1
      · exact htimers.2.1
    rw [not_active_of_ended he, hpunch]
    simp

/-- Each start of the punch, the first and those of the renegotiations, pays for the wait until its
deadline. -/
structure Spent (h : List Entry) (t : Millis) (s : Session) : Prop where
  fresh : s.punchStarted = false → waited h = 0
  rest : s.waiting = false → waited h ≤ (s.renegotiations + 1) * punchDeadlineMs
  due : s.waiting = true → ∃ d, s.punch.due = some d ∧
    waited h + (d - t) ≤ (s.renegotiations + 1) * punchDeadlineMs

theorem execution_last {h : List Entry} {t : Millis} (hx : Execution C E h t s) :
    (h = [] ∧ s = create t) ∨ ∃ pre a, h = pre ++ [a] ∧ a.now = t := by
  cases hx with
  | start t => exact .inl ⟨rfl, rfl⟩
  | call op now hx hle => exact .inr ⟨_, _, rfl, rfl⟩

theorem waited_execution {h : List Entry} {t : Millis} (hx : Execution C E h t s) (op : Op)
    (T : Millis) (s' : Session) :
    waited (h ++ [⟨T, op, s, s'⟩]) = waited h + if s.waiting then T - t else 0 := by
  rcases execution_last hx with ⟨rfl, rfl⟩ | ⟨pre, a, rfl, rfl⟩
  · rfl
  · exact waited_snoc pre a _

theorem Spent.elapsed {h : List Entry} {t : Millis} (hs : Spent h t s) (hle : t ≤ T)
    (hprompt : ∀ d, nextDeadline s = some d → T ≤ d) :
    (waited h + if s.waiting then T - t else 0) ≤ (s.renegotiations + 1) * punchDeadlineMs ∧
    ∀ d, s.punch.due = some d → s.waiting = true → T ≤ d ∧
      (waited h + if s.waiting then T - t else 0) + (d - T) ≤
        (s.renegotiations + 1) * punchDeadlineMs := by
  by_cases hwaiting : s.waiting = true
  · obtain ⟨d, hdue, hspent⟩ := hs.due hwaiting
    obtain ⟨n, hn, hnd⟩ := nextDeadline_le_punch hdue
    have hTd : T ≤ d := (hprompt n hn).trans hnd
    have hsplit : (T - t) + (d - T) = d - t := by
      rw [Nat.add_comm, Nat.sub_add_sub_cancel hTd hle]
    have hall : (waited h + (T - t)) + (d - T) ≤ (s.renegotiations + 1) * punchDeadlineMs := by
      rw [Nat.add_assoc, hsplit]
      exact hspent
    rw [if_pos hwaiting]
    refine ⟨(Nat.le_add_right _ _).trans hall, ?_⟩
    intro d' hdue' _
    obtain rfl := Option.some.inj (hdue.symm.trans hdue')
    exact ⟨hTd, hall⟩
  · rw [if_neg hwaiting]
    exact ⟨hs.rest (by simpa using hwaiting), fun d _ htrue => absurd htrue hwaiting⟩

theorem step_spent {h : List Entry} {t : Millis} (hx : Execution C E h t s)
    (hs : Spent h t s) (op : Op) (hle : t ≤ T) (hprompt : ∀ d, nextDeadline s = some d → T ≤ d) :
    Spent (h ++ [⟨T, op, s, step C E s op T⟩]) T (step C E s op T) := by
  obtain ⟨hrest, hdue⟩ := hs.elapsed hle hprompt
  have hunstarted : s.punchStarted = false → (waited h + if s.waiting then T - t else 0) = 0 := by
    intro hnone
    have hidle : s.waiting = false := by simp [Session.waiting, hnone]
    rw [hs.fresh hnone, hidle]
    rfl
  have harmed := waiting_iff_armed (execution_live_or_ended hx)
  have harmed' := waiting_iff_armed (execution_live_or_ended (hx.call op T hle))
  have hlimited := step_limited (C := C) (E := E) s op T
  have htotal := waited_execution hx op T (step C E s op T)
  generalize step C E s op T = s' at hlimited harmed' htotal ⊢
  generalize (waited h + if s.waiting then T - t else 0) = total at hrest hdue hunstarted htotal
  cases hlimited with
  | held _ hsame =>
    constructor
    · intro hnone
      rw [htotal]
      exact hunstarted (hsame.punch_started.symm.trans hnone)
    · intro _
      rw [htotal, hsame.renegotiations]
      exact hrest
    · intro hwaiting
      obtain ⟨d, hd⟩ := Option.isSome_iff_exists.mp (harmed'.mp hwaiting)
      have hkept : s.punch.due = some d := by
        rcases hsame.punch with hsame | hnone
        · rw [← hsame, hd]
        · rw [hnone] at hd
          cases hd
      obtain ⟨-, hspent⟩ := hdue d hkept (harmed.mpr (by rw [hkept]; rfl))
      rw [htotal, hsame.renegotiations]
      exact ⟨d, hd, hspent⟩
  | started _ hbefore hcount _ hstart =>
    have hzero := hunstarted hbefore
    constructor
    · intro _
      rw [htotal, hzero]
    · intro _
      rw [htotal, hzero]
      exact Nat.zero_le _
    · intro hwaiting
      rcases hstart with hstart | hsame
      · refine ⟨_, hstart, ?_⟩
        rw [htotal, hzero, Nat.zero_add]
        exact (timeAfter_sub_le _ _).trans (Nat.le_mul_of_pos_left _ (Nat.succ_pos _))
      · rw [harmed', hsame, ← harmed] at hwaiting
        simp [Session.waiting, hbefore] at hwaiting
  | renegotiated _ _ _ hstarted hcount _ hagain =>
    have hmore : (s'.renegotiations + 1) * punchDeadlineMs =
        (s.renegotiations + 1) * punchDeadlineMs + punchDeadlineMs := by
      rw [hcount, Nat.succ_mul]
    constructor
    · intro hnone
      rw [htotal]
      exact hunstarted (hstarted.symm.trans hnone)
    · intro _
      rw [htotal, hmore]
      exact hrest.trans (Nat.le_add_right _ _)
    · intro hwaiting
      have hpunch : s.punchStarted = true := by
        rw [← hstarted]
        simp only [Session.waiting, Bool.and_eq_true] at hwaiting
        exact hwaiting.1.2
      rcases hagain hpunch with hagain | hnone
      · refine ⟨_, hagain, ?_⟩
        rw [htotal, hmore]
        exact Nat.add_le_add hrest (timeAfter_sub_le _ _)
      · rw [harmed', hnone] at hwaiting
        cases hwaiting

theorem execution_spent {h : List Entry} {t : Millis} (hx : Execution C E h t s)
    (hprompt : Prompt h) : Spent h t s := by
  induction hx with
  | start t => exact ⟨fun _ => rfl, fun _ => Nat.zero_le _, fun hwaiting => by cases hwaiting⟩
  | @call h t s op now hx hle ih =>
    apply step_spent hx (ih fun e he => hprompt e (List.mem_append_left _ he)) op hle
    exact hprompt _ (List.mem_append_right _ (List.mem_singleton_self _))

theorem Spent.bound {h : List Entry} {t : Millis} (hs : Spent h t s)
    (hlimit : s.renegotiations ≤ maxRenegotiations) (hle : t ≤ T)
    (hprompt : ∀ d, nextDeadline s = some d → T ≤ d) :
    (waited h + if s.waiting then T - t else 0) ≤ (maxRenegotiations + 1) * punchDeadlineMs :=
  (hs.elapsed hle hprompt).1.trans (Nat.mul_le_mul_right _ (Nat.succ_le_succ hlimit))

theorem execution_entry {h : List Entry} {t : Millis} (hx : Execution C E h t s) :
    ∀ e ∈ h, e.after = step C E e.before e.op e.now := by
  induction hx with
  | start t => exact fun e he => absurd he List.not_mem_nil
  | call op now _ _ ih =>
    intro e he
    rcases List.mem_append.mp he with he | he
    · exact ih e he
    · obtain rfl := List.mem_singleton.mp he
      rfl

/-- A call that starts over with the HELLO `h` of the packet `p`. The acknowledgement goes out from
an empty window, with no ping pending and no flag set; the attempt goes on as it was. -/
structure StartsOver (C : SessionConfig) (E : SessionIo) (e : Entry) (p : RxPacket)
    (h : HelloPayload) : Prop where
  op : e.op = .receive p
  type : p.type = some .hello
  empty : ∀ fresh, fresh = resetForEpoch { e.before with out := [] } p.header.sessionEpoch e.now →
    fresh.window = {} ∧ fresh.pendingPings = [] ∧ fresh.gotAck = false ∧ fresh.sentAck = false ∧
    checkEpoch C E { e.before with out := [] } p e.now =
      (settle C E
        (restartPunch C E (stopTraffic (sendHelloAck C E fresh h.nonce p.source e.now)) e.now)
        e.before.state e.now, .ok (.hello h true))
  kept : SameAttempt e.before (checkEpoch C E { e.before with out := [] } p e.now).1
  endpoint : e.after.peerEndpoint = e.before.peerEndpoint
  next_ping : e.after.nextPingId = e.before.nextPingId
  generation : e.after.lastGeneration = e.before.lastGeneration
  verified : isVerified C e.before p.source = true → e.after.probes = e.before.probes
  lasting : ∀ q ∈ e.before.probes, q.expired e.now = false → q ∈ e.after.probes
  added : ∀ q ∈ e.after.probes, q ∈ e.before.probes ∨ q.dest = p.source

theorem entry_startsOver {e : Entry} (he : e.after = step C E e.before e.op e.now)
    (haccepts : e.accepts C E = true) :
    ∃ p h, StartsOver C E e p h := by
  obtain ⟨T, op, u, v⟩ := e
  obtain rfl : v = step C E u op T := he
  cases op with
  | receive p =>
    rcases receive_limits (C := C) (E := E) { u with out := [] } p T with
      ⟨hnot, -⟩ | ⟨-, -, -, hello, old, htype, -, -, hcheck, hafter⟩
    · have hboth : false = true := hnot.symm.trans haccepts
      cases hboth
    · have hkept :=
        renegotiate_attempt (C := C) (E := E) (T := T) (s := { u with out := [] }) p hello.nonce
      have hstep : step C E u (.receive p) T =
          afterRenegotiation C E
            (recorded (renegotiate C E { u with out := [] } p hello.nonce T) p) p T := hafter
      have hdone : ∀ w : Session, SameAttempt u w →
        (w.peerEndpoint = u.peerEndpoint ∧ w.nextPingId = u.nextPingId ∧
          w.lastGeneration = u.lastGeneration) ∧
          (isVerified C u p.source = true → w.probes = u.probes) ∧
          (∀ q ∈ u.probes, q.expired T = false → q ∈ w.probes) ∧ ∀ q ∈ w.probes, q ∈ u.probes ∨
          q.dest = p.source := by
        intro w hw
        refine ⟨⟨hw.endpoint, hw.next_ping, hw.generation⟩, fun _ => hw.probes, ?_, ?_⟩
        · intro q hq _
          rw [hw.probes]
          exact hq
        · intro q hq
          rw [hw.probes] at hq
          exact .inl hq
      have hresult : ∀ w, SameAttempt u w →
          ((afterRenegotiation C E w p T).peerEndpoint = u.peerEndpoint ∧
            (afterRenegotiation C E w p T).nextPingId = u.nextPingId ∧
            (afterRenegotiation C E w p T).lastGeneration = u.lastGeneration) ∧
          (isVerified C u p.source = true → (afterRenegotiation C E w p T).probes = u.probes) ∧
          (∀ q ∈ u.probes, q.expired T = false → q ∈ (afterRenegotiation C E w p T).probes) ∧
          ∀ q ∈ (afterRenegotiation C E w p T).probes, q ∈ u.probes ∨ q.dest = p.source := by
        intro w hw
        unfold afterRenegotiation
        split_ifs with hverified
        · exact hdone w hw
        · obtain ⟨hendpoint, hping, hgeneration, hlasting, hadded⟩ :=
            startPathProbe_attempt (C := C) (E := E) (s := w) (T := T) p.source
          rw [hw.probes] at hlasting hadded
          refine ⟨⟨hendpoint.trans hw.endpoint, hping.trans hw.next_ping,
            hgeneration.trans hw.generation⟩, ?_,
            hlasting, hadded⟩
          intro htrue
          have hsame : isVerified C w p.source = isVerified C u p.source := by
            unfold isVerified
            rw [hw.endpoint]
          exact absurd (hsame.trans htrue) hverified
      have hrecorded :
        SameAttempt u (recorded (renegotiate C E { u with out := [] } p hello.nonce T) p) :=
        ⟨hkept.endpoint, hkept.probes, hkept.next_ping, hkept.generation⟩
      obtain ⟨⟨hendpoint, hping, hgeneration⟩, hverified, hlasting, hadded⟩ := hresult _ hrecorded
      rw [← hstep] at hendpoint hping hgeneration hverified hlasting hadded
      refine ⟨p, hello, rfl, htype, ?_, ?_, hendpoint, hping, hgeneration, hverified,
        hlasting, hadded⟩
      · rintro fresh rfl
        exact ⟨rfl, rfl, rfl, rfl, hcheck⟩
      · have hsame : SameAttempt u (renegotiate C E { u with out := [] } p hello.nonce T) :=
          ⟨hkept.endpoint, hkept.probes, hkept.next_ping, hkept.generation⟩
        change SameAttempt u (checkEpoch C E { u with out := [] } p T).1
        rw [hcheck]
        exact hsame
  | startPunch => cases haccepts
  | poll => cases haccepts
  | sendData inner => cases haccepts
  | sendRoster payload => cases haccepts
  | closeByUser => cases haccepts

theorem entry_rejected {e : Entry} (he : e.after = step C E e.before e.op e.now)
    (hnot : e.accepts C E = false) :
    e.after.renegotiations = e.before.renegotiations ∧
    e.after.lastRenegotiation = e.before.lastRenegotiation := by
  obtain ⟨T, op, u, v⟩ := e
  obtain rfl : v = step C E u op T := he
  cases step_limited (C := C) (E := E) u op T with
  | held _ hsame => exact ⟨hsame.renegotiations, hsame.last_renegotiation⟩
  | started _ _ hcount hlast _ => exact ⟨hcount, hlast⟩
  | renegotiated htaken => exact absurd (hnot.symm.trans htaken) Bool.false_ne_true

/-- The renegotiations of a run are few and apart, and a session that is polled in time waits no
longer than the deadlines of its first start and of these allow. -/
theorem renegotiation_is_bounded {h : List Entry} {t : Millis} (hx : Execution C E h t s) :
    (acceptedTimes C E h).length ≤ maxRenegotiations ∧
    ((acceptedTimes C E h).Pairwise fun a b => a + minRenegIntervalMs < 2 ^ 64 →
      a + minRenegIntervalMs ≤ b) ∧
    (∀ e ∈ h, e.accepts C E = false →
      e.after.renegotiations = e.before.renegotiations ∧
      e.after.lastRenegotiation = e.before.lastRenegotiation) ∧
    (∀ e ∈ h, e.accepts C E = true → ∃ p hello, StartsOver C E e p hello) ∧
    (Prompt h → ∀ T, t ≤ T → (∀ d, nextDeadline s = some d → T ≤ d) →
      (waited h + if s.waiting then T - t else 0) ≤ (maxRenegotiations + 1) * punchDeadlineMs) := by
  have hwithin := execution_within hx
  have hentry := execution_entry hx
  refine ⟨?_, hwithin.spaced, fun e he => entry_rejected (hentry e he),
    fun e he => entry_startsOver (hentry e he), ?_⟩
  · rw [← hwithin.count]
    exact hwithin.limit
  · intro hprompt T hle hnext
    exact (execution_spent hx hprompt).bound hwithin.limit hle hnext

/-! ## A peer that comes back from elsewhere -/

/-- The HELLO of a restarted peer, from an address that no one has verified. -/
def restartHello : RxPacket where
  header := headerOf .hello ⟨2, 11, 1⟩ (encodeHello ⟨nonceOf 4, 0x0A640002⟩)
  payload := encodeHello ⟨nonceOf 4, 0x0A640002⟩
  source := roamAway

def restartOps : List (Op × Millis) :=
  [(.startPunch, 0),
    (.receive (roamPacket .hello (nonceOf 2) 1 roamHome), 10),
    (.receive (roamPacket .helloAck (nonceOf 1) 2 roamHome), 20),
    (.receive restartHello, 1500)]

def restartRun : List Entry := trace roamConfig roamIo (create 0) restartOps
def restartEnd : Session := runOps roamConfig roamIo (create 0) restartOps

theorem restart_execution : Execution roamConfig roamIo restartRun 1500 restartEnd :=
  execution_trace (.start 0) restartOps (by decide)

theorem restart_is_bounded : acceptedTimes roamConfig roamIo restartRun = [1500] ∧
    restartEnd.waiting = true ∧
    waited restartRun = 20 ∧
    waited restartRun + 200 ≤ (maxRenegotiations + 1) * punchDeadlineMs := by
  have hnext : nextDeadline restartEnd = some 1700 := by decide +kernel
  have hwaiting : restartEnd.waiting = true := by decide +kernel
  have hprompt : Prompt restartRun := by
    have hall : restartRun.all (fun e => (nextDeadline e.before).all (e.now ≤ ·)) = true := by
      decide +kernel
    intro e he d hd
    have hentry := List.all_eq_true.mp hall e he
    rw [hd] at hentry
    exact of_decide_eq_true hentry
  refine ⟨by decide +kernel, hwaiting, by decide +kernel, ?_⟩
  have hbound := (renegotiation_is_bounded restart_execution).2.2.2.2 hprompt 1700 (by decide) (by
    intro d hd
    rw [hnext] at hd
    obtain rfl := Option.some.inj hd
    exact le_rfl)
  rw [if_pos hwaiting] at hbound
  exact hbound

/-- The table of probes may grow in a call that starts over. -/
theorem restart_adds_probe : ¬∀ h t s, Execution roamConfig roamIo h t s →
    ∀ e ∈ h, e.accepts roamConfig roamIo = true →
    e.after.probes = e.before.probes := by
  intro hsame
  have hthere : 3 < restartRun.length := by decide +kernel
  have haccepts : (restartRun.get ⟨3, by decide +kernel⟩).accepts roamConfig roamIo = true := by
    decide +kernel
  have hprobes :=
    hsame _ _ _ restart_execution (restartRun.get ⟨3, hthere⟩) (List.get_mem _ _) haccepts
  have hgrown : (restartRun.get ⟨3, by decide +kernel⟩).after.probes.length ≠
      (restartRun.get ⟨3, by decide +kernel⟩).before.probes.length := by
    decide +kernel
  exact hgrown (congrArg List.length hprobes)

/-- The peer restarts twice, in the last tenth of a second of the clock. -/
def lateRestart (epoch : U32) : RxPacket where
  header := headerOf .hello ⟨2, epoch, 1⟩ (encodeHello ⟨nonceOf 4, 0x0A640002⟩)
  payload := encodeHello ⟨nonceOf 4, 0x0A640002⟩
  source := roamHome

def lateRestartOps : List (Op × Millis) :=
  [(.startPunch, 2 ^ 64 - 100),
    (.receive (roamPacket .hello (nonceOf 2) 1 roamHome), 2 ^ 64 - 100),
    (.receive (lateRestart 11), 2 ^ 64 - 100),
    (.receive (lateRestart 12), 2 ^ 64 - 100)]

def lateRestartRun : List Entry := trace roamConfig roamIo (create (2 ^ 64 - 100)) lateRestartOps

theorem late_restart_execution : Execution roamConfig roamIo lateRestartRun (2 ^ 64 - 100)
    (runOps roamConfig roamIo (create (2 ^ 64 - 100)) lateRestartOps) :=
  execution_trace (.start _) lateRestartOps (by decide)

/-- An interval that would end past the end of the clock is over at once. -/
theorem late_restarts_together : ¬∀ C E h t s, Execution C E h t s →
    (acceptedTimes C E h).Pairwise fun a b => a + minRenegIntervalMs ≤ b := by
  intro h
  have hspaced := h _ _ _ _ _ late_restart_execution
  have htwice : acceptedTimes roamConfig roamIo lateRestartRun = [2 ^ 64 - 100, 2 ^ 64 - 100] := by
    decide +kernel
  rw [htwice] at hspaced
  exact absurd (List.rel_of_pairwise_cons hspaced List.mem_cons_self) (by decide)

/-- Neither the table of probes nor the distance of two renegotiations is as simple as it looks. -/
theorem restart_exceptions :
    (¬∀ h t s, Execution roamConfig roamIo h t s → ∀ e ∈ h, e.accepts roamConfig roamIo = true →
      e.after.probes = e.before.probes) ∧
    ¬∀ C E h t s, Execution C E h t s →
      (acceptedTimes C E h).Pairwise fun a b => a + minRenegIntervalMs ≤ b :=
  ⟨restart_adds_probe, late_restarts_together⟩

end Sangtachi.Peer
