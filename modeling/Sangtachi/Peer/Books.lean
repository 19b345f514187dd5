import Sangtachi.Peer.Notices

/-! # The loss accounting of one call

Four fields carry the accounting. A call leaves them alone, records one packet, records the packet
that connects the session and begins a section, or ends the section of the old epoch. -/
namespace Sangtachi.Peer

open Sangtachi.BigEndian Sangtachi.Packet Sangtachi.Replay Sangtachi.InnerIpv4

variable {C : SessionConfig} {E : SessionIo} {s s' t : Session} {T : Millis}

/-- The window and the figures of the accounting. A section lasts while there is a baseline. -/
structure Books where
  window : ReplayWindow
  baseline : Option ℕ
  accepted : ℕ
  totals : LossStats

def Session.books (s : Session) : Books := ⟨s.window, s.lossBaseline, s.lossAccepted, s.lossTotals⟩

def Books.loss (b : Books) : LossStats :=
  match b.baseline with
  | none => b.totals
  | some base =>
    { expected := wrapPosition (b.totals.expected +
      wrapPosition (b.window.position + 2 ^ 64 - base))
      accepted := wrapPosition (b.totals.accepted + b.accepted) }

theorem loss_books (s : Session) : s.loss = s.books.loss := rfl

def Books.record (b : Books) (seq : U32) : Books :=
  { b with
    window := (b.window.accept seq).2
    accepted :=
      if (b.window.check seq).accepted && b.baseline.any (· < (b.window.check seq).pktPos) then
        wrapPosition (b.accepted + 1)
      else b.accepted }

def Books.enter (b : Books) : Books := { b with baseline := some b.window.position, accepted := 0 }

def Books.reset (b : Books) : Books where
  window := b.window.reset
  baseline := none
  accepted := if b.baseline.isSome then 0 else b.accepted
  totals := if b.baseline.isSome then b.loss else b.totals

/-! ## What leaves the books alone -/

theorem sendPacket_books (type : PacketType) (payload : List U8) (dest : Endpoint) :
    (sendPacket C E s type payload dest).2.books = s.books := by
  obtain ⟨counters, calls, hs, -⟩ := sendPacket_spec (C := C) (E := E) s type payload dest
  rw [hs]
  rfl

theorem sendEach_books (type : PacketType) (payload : List U8) (dests : List Endpoint) :
    (sendEach C E s type payload dests).books = s.books := by
  induction dests generalizing s with
  | nil => rfl
  | cons e rest ih => exact ih.trans (sendPacket_books type payload e)

theorem sendToPeer_books (type : PacketType) (payload : List U8) :
    (sendToPeer C E s type payload).books = s.books := by
  unfold sendToPeer
  split
  · exact sendPacket_books _ _ _
  · exact sendEach_books _ _ _

theorem sendUntilFailure_books (inner : List U8) (dests : List Endpoint) :
    (sendUntilFailure C E s inner dests).2.books = s.books := by
  induction dests generalizing s with
  | nil => rfl
  | cons e rest ih =>
    have hsend := sendPacket_books (C := C) (E := E) (s := s) .data inner e
    unfold sendUntilFailure
    split
    · next heq => rwa [heq] at hsend
    · next heq =>
      rw [heq] at hsend
      exact ih.trans hsend

theorem sendData_books (inner : List U8) : (sendData C E s inner).2.books = s.books := by
  unfold sendData
  split
  · exact sendPacket_books _ _ _
  · exact sendUntilFailure_books _ _

theorem sendClose_books (reason : CloseReason) : (sendClose C E s reason).books = s.books := by
  unfold sendClose
  split
  · rfl
  · exact sendPacket_books _ _ _

theorem Spend.books {dest : Endpoint} {granted : Bool} (h : Spend C s dest T granted s') :
    s'.books = s.books := by
  obtain ⟨counters, milli, stamp, rfl⟩ := h.updates
  rfl

theorem SentOne.books {type : PacketType} {payload : List U8} {dest : Endpoint}
    (h : SentOne C E s type payload dest s') : s'.books = s.books := by
  obtain ⟨counters, bytes, -⟩ := h
  rfl

theorem sendHelloAck_books (echo : Nonce) (dest : Endpoint) :
    (sendHelloAck C E s echo dest T).books = s.books := by
  rcases sendHelloAck_cases (C := C)
    (E := E) s echo dest T with hspend | ⟨u, v, counters, hspend, hsent, heq⟩
  · exact hspend.books
  · rw [heq]
    exact hsent.books.trans hspend.books

theorem sendPong_books (pingId : U64) (dest : Endpoint) :
    (sendPong C E s pingId dest T).books = s.books := by
  rcases sendPong_cases (C := C) (E := E) s pingId dest T with hspend | ⟨u, hspend, hsent⟩
  · exact hspend.books
  · exact hsent.books.trans hspend.books

theorem startPathProbe_books (source : Endpoint) :
    (startPathProbe C E s source T).books = s.books := by
  unfold startPathProbe
  dsimp only
  split
  · rfl
  split
  · rfl
  split
  · rfl
  · have hspend := spendFor_spend
      (C := C) { expireProbes s T with draws := (expireProbes s T).draws + 1 } source T
    split
    · next heq =>
      rw [heq] at hspend
      exact hspend.books
    · next heq =>
      rw [heq] at hspend
      exact (sendPacket_books _ _ _).trans hspend.books

theorem readRttClock_books : (readRttClock E s).2.books = s.books := by
  unfold readRttClock
  split <;> rfl

theorem sendPing_books : (sendPing C E s T).books = s.books := by
  unfold sendPing
  dsimp only
  split
  · rfl
  · exact (sendToPeer_books _ _).trans readRttClock_books

theorem poll_books : (poll C E s T).books = s.books := by
  have hfail : ∀ (u : Session) (failure : SessionFailure),
    (fail C E u failure T).books = u.books := by
    intro u failure
    exact (sendClose_books (s := stopTimers u) .setupFailed).trans rfl
  have hhello : ∀ u : Session, (pollHello C E u T).books = u.books := by
    intro u
    unfold pollHello
    split
    · exact sendEach_books _ _ _
    · rfl
  have hkeepalive : ∀ u : Session, (pollKeepalive C E u T).books = u.books := by
    intro u
    unfold pollKeepalive
    split
    · exact sendToPeer_books _ _
    · rfl
  have hping : ∀ u : Session, (pollPing C E u T).books = u.books := by
    intro u
    unfold pollPing
    split
    · exact sendPing_books
    · rfl
  unfold poll
  dsimp only
  split
  · rfl
  split
  · exact hfail _ _
  split
  · exact hfail _ _
  · exact (hping _).trans ((hkeepalive _).trans (hhello _))

theorem startPunch_books : (startPunch C E s T).2.books = s.books := by
  unfold startPunch
  dsimp only
  split
  · rfl
  split
  · rfl
  · exact sendEach_books _ _ _

theorem closeByUser_books : (closeByUser C E s T).books = s.books := by
  unfold closeByUser
  split
  · rfl
  · exact sendClose_books _

theorem checkType_books (p : RxPacket) : (checkType C s p T).1.books = s.books := by
  unfold checkType
  split
  · split
    · rfl
    · split <;> rfl
  · split <;> rfl
  · split
    · rfl
    · dsimp only
      split <;> rfl
  · split <;> rfl
  · split <;> rfl
  · rfl

theorem learnSource_books (p : RxPacket) (pass : EpochPass) (d : ReplayDecision) :
    (learnSource C s p pass d).2.books = s.books := by
  have hlearn : ∀ u : Session, (learn u p.source).books = u.books := by
    intro u
    unfold learn
    split <;> rfl
  unfold learnSource
  split
  · dsimp only
    split
    · exact hlearn _
    · rfl
  · split
    · split
      · exact hlearn _
      · rfl
    · rfl

theorem act_books (p : RxPacket) (pass : EpochPass) (body : Body) (before : SessionState) :
    (act C E s p pass body before T).books = s.books := by
  unfold act
  split
  · exact sendHelloAck_books _ _
  · rfl
  · split <;> rfl
  · cases body with
    | bare => rfl
    | data =>
      simp only [actOther]
      split <;> rfl
    | ping pingId => exact sendPong_books _ _
    | pong pingId =>
      simp only [actOther, takePong]
      split
      · exact readRttClock_books
      · rfl
    | close reason => rfl
    | roster r =>
      simp only [actOther, takeRoster]
      split <;> rfl

theorem raiseSource_books (source : Endpoint) (probeSource : Bool) :
    (raiseSource C E s source probeSource T).books = s.books := by
  unfold raiseSource
  split
  · exact startPathProbe_books _
  · rfl

theorem dropWithoutSink_books (body : Body) : (dropWithoutSink E s body).2.books = s.books := by
  unfold dropWithoutSink
  split <;> rfl


/-! ## Sections -/

def InSection (s : Session) : Prop :=
  s.terminal = none → (s.lossBaseline.isSome = true ↔ s.state = .connected)

theorem SameControl.inSection (h : SameControl s s') (hb : s'.books = s.books) (hs : InSection s) :
    InSection s' := by
  have hbaseline : s'.lossBaseline = s.lossBaseline := congrArg Books.baseline hb
  intro hterminal
  rw [hbaseline, h.state]
  exact hs (h.terminal.symm.trans hterminal)

theorem enterConnected_books : (enterConnected C E s T).books = s.books.enter := by
  exact (sendToPeer_books .keepalive []).trans rfl

theorem settle_books (before : SessionState) :
    (settle C E s before T).state = s.state ∧ (settle C E s before T).terminal = s.terminal ∧
      ((settle C E s before T).books = s.books ∧ (s.state = .connected → before = .connected) ∨
        (settle C E s before T).books = s.books.enter ∧ s.state = .connected ∧
        before ≠ .connected) := by
  obtain ⟨hstate, hheld, -⟩ := settle_notices (C := C) (E := E) (s := s) (T := T) before
  refine ⟨hstate, hheld.terminal, ?_⟩
  unfold settle
  dsimp only
  by_cases hsame : s.state = before
  · rw [if_pos hsame]
    exact .inl ⟨rfl, fun hc => hsame.symm.trans hc⟩
  · rw [if_neg hsame]
    by_cases hc : s.state = .connected
    · rw [if_pos hc]
      exact .inr ⟨enterConnected_books, hc, fun hb => hsame (hc.trans hb.symm)⟩
    · rw [if_neg hc]
      exact .inl ⟨rfl, fun h => absurd h hc⟩

/-- A new epoch ends the section, and the session is not connected before its next packet. -/
theorem renegotiate_books (hlive : s.terminal = none) (p : RxPacket) (nonce : Nonce) :
    (renegotiate C E s p nonce T).books = s.books.reset ∧
    (renegotiate C E s p nonce T).terminal = none ∧
      (renegotiate C E s p nonce T).state ≠ .connected := by
  obtain ⟨sent, -, hack⟩ := sendHelloAck_same (C := C) (E := E) (T := T)
    (s := resetForEpoch s p.header.sessionEpoch T) nonce p.source
  have hbooks := sendHelloAck_books (C := C) (E := E) (T := T)
    (s := resetForEpoch s p.header.sessionEpoch T) nonce p.source
  unfold renegotiate
  dsimp only
  generalize sendHelloAck C E (resetForEpoch s p.header.sessionEpoch T) nonce p.source T =
    u at hack hbooks ⊢
  obtain ⟨hello, punch, hsame, -⟩ :=
    restartPunch_same (C := C) (E := E) (T := T) (s := stopTraffic u)
  have hrestarted : (restartPunch C E (stopTraffic u) T).books = s.books.reset := by
    unfold restartPunch
    split
    · exact (sendEach_books _ _ _).trans hbooks
    · exact hbooks
  have hgot : (restartPunch C E (stopTraffic u) T).gotAck = false :=
    hsame.got_ack.trans hack.got_ack
  have hterminal : (restartPunch C E (stopTraffic u) T).terminal = none :=
    (hsame.terminal.trans hack.terminal).trans hlive
  have hnot : (restartPunch C E (stopTraffic u) T).state ≠ .connected := by
    rw [ne_eq, state_connected_iff hterminal, hgot]
    exact fun h => absurd h.1 (by decide)
  obtain ⟨hstate, hkeep, ⟨hkept, -⟩ | ⟨-, hc, -⟩⟩ := settle_books (C := C) (E := E) (T := T)
    (s := restartPunch C E (stopTraffic u) T) s.state
  · exact ⟨hkept.trans hrestarted, hkeep.trans hterminal, by rwa [hstate]⟩
  · exact absurd hc hnot

/-! ## Calls -/

/-- The position that the window accepts when it takes a packet. -/
def receivedPosition (C : SessionConfig) (E : SessionIo) (s : Session) (p : RxPacket)
    (T : Millis) : Option ℕ :=
  if s.active then
    match checkEpoch C E s p T with
    | (u, .ok _) =>
      let d := u.window.check p.header.sequence
      if d.accepted then some d.pktPos else none
    | (_, .error _) => none
  else none

def acceptedPosition (C : SessionConfig) (E : SessionIo) (s : Session) (T : Millis) : Op → Option ℕ
  | .receive p => receivedPosition C E { s with out := [] } p T
  | _ => none

/-- What a call does to the books, with the position that the window accepted. -/
inductive Posted (s s' : Session) : Option ℕ → Prop where
  | kept : s'.books = s.books → Posted s s' none
  | recorded (seq : U32) : s.terminal = none → (s.window.check seq).accepted = true →
      s'.books = s.books.record seq → Posted s s' (some (s.window.check seq).pktPos)
  | entered (seq : U32) : s.terminal = none → (s.window.check seq).accepted = true →
    s.lossBaseline = none →
      s'.books = (s.books.record seq).enter → s.state ≠ .connected → s'.state = .connected →
      Posted s s' (some (s.window.check seq).pktPos)
  | restarted (seq : U32) : s.terminal = none → s'.books = s.books.reset.record seq →
    s'.terminal = none →
      s'.state ≠ .connected → Posted s s' (some replayWindow)

theorem recorded_books (u : Session) (p : RxPacket) :
    (recorded u p).books = u.books.record p.header.sequence := rfl

/-- The effects of a packet keep the books and with them the section, or begin a section. -/
inductive Settled (s s' : Session) : Prop where
  | kept : s'.books = s.books →
    (s'.terminal = none → (s'.state = .connected ↔ s.state = .connected)) → Settled s s'
  | entered : s'.books = s.books.enter → s.state ≠ .connected → s'.terminal = none →
    s'.state = .connected →
      Settled s s'

theorem applyEffects_books (hlive : s.terminal = none) (p : RxPacket) (pass : EpochPass)
    (d : ReplayDecision) (body : Body) :
    Settled s (applyEffects C E s p pass d body T).2 := by
  have hpinned : (pin s p.header.sessionEpoch).books = s.books := by
    unfold pin
    split <;> rfl
  have hlearned :=
    (learnSource_books (C := C) (s := pin s p.header.sessionEpoch) p pass d).trans hpinned
  have hsame := (pin_same (s := s) p.header.sessionEpoch).trans (learnSource_same (C := C) p pass d)
  unfold applyEffects
  dsimp only
  generalize learnSource C (pin s p.header.sessionEpoch) p pass d = learned at hlearned hsame ⊢
  obtain ⟨probeSource, u⟩ := learned
  dsimp only at hlearned hsame ⊢
  have hrenewed : (renewIdle u s.state T).books = s.books ∧
    (renewIdle u s.state T).gotAck = s.gotAck ∧
      (renewIdle u s.state T).sentAck = s.sentAck ∧ (renewIdle u s.state T).terminal = none := by
    unfold renewIdle
    split <;> exact ⟨hlearned, hsame.got_ack, hsame.sent_ack, hsame.terminal.trans hlive⟩
  generalize renewIdle u s.state T = v at hrenewed ⊢
  obtain ⟨hvbooks, hvgot, hvsent, hvterminal⟩ := hrenewed
  have hvstate : v.state = s.state := state_congr (hvterminal.trans hlive.symm) hvgot hvsent
  have hsettled :
    Settled s (dropWithoutSink E (settle C E (raiseSource C E (act C E v p pass body s.state T)
      p.source probeSource T) s.state T) body).2 := by
    obtain ⟨got, sent, hgot, hsent, hact⟩ :=
      act_same (C := C) (E := E) (s := v) (T := T) p pass body s.state
    have hraised :=
      raiseSource_same (C := C) (E := E) (T := T) (s := act C E v p pass body s.state T) p.source
      probeSource
    have hbooks :
      (raiseSource C E (act C E v p pass body s.state T) p.source probeSource T).books = s.books :=
      (raiseSource_books _ _).trans ((act_books _ _ _ _).trans hvbooks)
    have hterminal :
      (raiseSource C E (act C E v p pass body s.state T) p.source probeSource T).terminal = none :=
      (hact.trans hraised).terminal.trans hvterminal
    have hgrown : s.state = .connected →
        (raiseSource C E (act C E v p pass body s.state T) p.source probeSource T).state =
          .connected := by
      intro hc
      rw [← hvstate] at hc
      exact connected_of_grown hgot hsent (hact.trans hraised) hvterminal hc
    generalize raiseSource C E (act C E v p pass body s.state T) p.source probeSource T =
      w at hbooks hterminal hgrown ⊢
    obtain ⟨hstate, hkeep, hbooked⟩ := settle_books (C := C) (E := E) (T := T) (s := w) s.state
    have hdrop :
      SameControl (settle C E w s.state T) (dropWithoutSink E (settle C E w s.state T) body).2 :=
      dropWithoutSink_same
    rcases hbooked with ⟨hkept, hback⟩ | ⟨hentered, hc, hnot⟩
    · apply Settled.kept
      · exact (dropWithoutSink_books _).trans (hkept.trans hbooks)
      · intro _
        rw [hdrop.state, hstate]
        exact ⟨hback, hgrown⟩
    · apply Settled.entered
      · exact (dropWithoutSink_books _).trans (hentered.trans (congrArg Books.enter hbooks))
      · exact hnot
      · exact hdrop.terminal.trans (hkeep.trans hterminal)
      · exact hdrop.state.trans (hstate.trans hc)
  cases body with
  | close reason => exact .kept hvbooks fun h => by cases h
  | bare => exact hsettled
  | data => exact hsettled
  | ping pingId => exact hsettled
  | pong pingId => exact hsettled
  | roster r => exact hsettled

theorem checked_books {u w : Session} {p : RxPacket} {result : Except Counter Body}
    (hbooks : u.books = s.books) (htyped : checkType C (recorded u p) p T = (w, result)) :
    SameControl u w ∧ w.books = s.books.record p.header.sequence := by
  have hsame : SameControl u (recorded u p) := recordPacket_same p.header.sequence
  have hchecked := hsame.trans (checkType_same (C := C) (T := T) p)
  have hkept := checkType_books (C := C) (s := recorded u p) (T := T) p
  rw [htyped] at hchecked hkept
  refine ⟨hchecked, hkept.trans ?_⟩
  rw [recorded_books, hbooks]

theorem afterRenegotiation_books (v : Session) (p : RxPacket) :
    SameControl v (afterRenegotiation C E v p T) ∧
      (afterRenegotiation C E v p T).books = v.books := by
  unfold afterRenegotiation
  split
  · exact ⟨.refl v, rfl⟩
  · exact ⟨startPathProbe_same _, startPathProbe_books _⟩

/-- A packet that renegotiates: the books are begun anew with it as their first. -/
theorem restarted_books (hlive : s.terminal = none) (p : RxPacket) (nonce : Nonce) :
    Posted s (afterRenegotiation C E (recorded (renegotiate C E s p nonce T) p) p T)
      (some ((renegotiate C E s p nonce T).window.check p.header.sequence).pktPos) ∧
    InSection (afterRenegotiation C E (recorded (renegotiate C E s p nonce T) p) p T) := by
  obtain ⟨hbooks, hterminal, hstate⟩ :=
    renegotiate_books (C := C) (E := E) (T := T) hlive p nonce
  obtain ⟨hsame, hkept⟩ := afterRenegotiation_books (C := C) (E := E) (T := T)
    (recorded (renegotiate C E s p nonce T) p) p
  have hpos : ((renegotiate C E s p nonce T).window.check p.header.sequence).pktPos =
      replayWindow := by
    have hwindow : (renegotiate C E s p nonce T).window = s.window.reset :=
      congrArg Books.window hbooks
    rw [hwindow]
    rfl
  rw [hpos]
  generalize afterRenegotiation C E (recorded (renegotiate C E s p nonce T) p) p T =
    v at hsame hkept ⊢
  have hrecord : v.books = s.books.reset.record p.header.sequence := by
    rw [hkept, recorded_books, hbooks]
  have hstate' : v.state ≠ .connected := by
    rw [hsame.state]
    exact hstate
  refine ⟨.restarted _ hlive hrecord (hsame.terminal.trans hterminal) hstate', fun _ => ?_⟩
  have hbaseline : v.lossBaseline = none := congrArg Books.baseline hrecord
  rw [hbaseline]
  exact ⟨fun h => (by cases h), fun h => absurd h hstate'⟩

theorem receive_books (hs : InSection s) (hlive : s.terminal = none) (p : RxPacket) :
    Posted s (receive C E s p T).2 (receivedPosition C E s p T) ∧
    InSection (receive C E s p T).2 := by
  have hactive := active_of_live hlive
  have hexpired : ∀ {u}, u = s ∨ u = expireProbes s T → SameControl s u ∧ u.books = s.books := by
    rintro u (rfl | rfl)
    · exact ⟨.refl _, rfl⟩
    · exact ⟨expireProbes_same, rfl⟩
  have hreceived := receive_cases (C := C) (E := E) s p T
  have hchecked := checkEpoch_cases (C := C) (E := E) s p T
  unfold receivedPosition
  rw [if_pos hactive]
  generalize receive C E s p T = result at hreceived ⊢
  cases hreceived with
  | inactive hnot =>
    rw [hactive] at hnot
    cases hnot
  | refused u c _ hcheck =>
    rw [hcheck] at hchecked ⊢
    cases hchecked with
    | refused _ _ hu =>
      obtain ⟨hsame, hbooks⟩ := hexpired hu
      exact ⟨.kept hbooks, (hsame.trans (count_same c)).inSection hbooks hs⟩
  | repeated u pass c _ hcheck hrejected =>
    rw [hcheck] at hchecked ⊢
    cases hchecked with
    | passed _ _ hu _ _ _ =>
      obtain ⟨hsame, hbooks⟩ := hexpired hu
      dsimp only
      rw [if_neg (by rw [hrejected]; decide)]
      exact ⟨.kept hbooks, (hsame.trans (count_same c)).inSection hbooks hs⟩
    | renegotiated h old htype hold hne =>
      rw [(renegotiated_passes _ htype hold).1] at hrejected
      cases hrejected
  | invalid u w pass c _ hcheck haccepted htyped =>
    rw [hcheck] at hchecked ⊢
    cases hchecked with
    | passed _ _ hu _ _ _ =>
      obtain ⟨hsame, hbooks⟩ := hexpired hu
      have hwindow : u.window = s.window := congrArg Books.window hbooks
      obtain ⟨hw, hrecord⟩ := checked_books hbooks htyped
      dsimp only
      rw [if_pos haccepted]
      rw [hwindow] at haccepted ⊢
      refine ⟨.recorded _ hlive haccepted hrecord, ?_⟩
      have hcontrol := (hsame.trans hw).trans (count_same c)
      have hbaseline : (w.count c).lossBaseline = s.lossBaseline := congrArg Books.baseline hrecord
      intro hterminal
      rw [hbaseline, hcontrol.state]
      exact hs (hcontrol.terminal.symm.trans hterminal)
    | renegotiated h old htype hold hne =>
      rw [(renegotiated_passes _ htype hold).2] at htyped
      cases (Prod.mk.inj htyped).2
  | renegotiated u w pass body _ hcheck haccepted htyped hreneg =>
    rw [hcheck] at hchecked ⊢
    cases hchecked with
    | passed _ _ _ hnot _ _ =>
      rw [hreneg] at hnot
      cases hnot
    | renegotiated h old htype hold hne hrate hlimit =>
      rw [(renegotiated_passes _ htype hold).2] at htyped
      obtain ⟨rfl, -⟩ := Prod.mk.inj htyped
      dsimp only
      rw [if_pos haccepted]
      exact restarted_books hlive p h.nonce
  | applied u w pass body _ hcheck haccepted htyped hnot =>
    rw [hcheck] at hchecked ⊢
    cases hchecked with
    | passed _ _ hu _ _ _ =>
      obtain ⟨hsame, hbooks⟩ := hexpired hu
      have hwindow : u.window = s.window := congrArg Books.window hbooks
      obtain ⟨hw, hrecord⟩ := checked_books hbooks htyped
      have hcontrol := hsame.trans hw
      have hwlive : w.terminal = none := hcontrol.terminal.trans hlive
      have heffects := applyEffects_books (C := C) (E := E) (T := T) hwlive p pass
        (u.window.check p.header.sequence) body
      dsimp only
      rw [if_pos haccepted]
      rw [hwindow] at haccepted heffects ⊢
      generalize (applyEffects C E w p pass (s.window.check p.header.sequence) body T).2 =
        v at heffects ⊢
      cases heffects with
      | kept hkept hstate =>
        refine ⟨.recorded _ hlive haccepted (hkept.trans hrecord), fun hterminal => ?_⟩
        have hbaseline : v.lossBaseline = s.lossBaseline :=
          congrArg Books.baseline (hkept.trans hrecord)
        rw [hbaseline, hstate hterminal, hcontrol.state]
        exact hs hlive
      | entered hentered hbefore hterminal hstate =>
        rw [hcontrol.state] at hbefore
        have hnone : s.lossBaseline = none := by
          cases hb : s.lossBaseline with
          | none => rfl
          | some base => exact absurd ((hs hlive).mp (by rw [hb]; rfl)) hbefore
        refine ⟨.entered _ hlive haccepted hnone
          (hentered.trans (congrArg Books.enter hrecord)) hbefore hstate,
          fun _ => ?_⟩
        have hbaseline : v.lossBaseline = some w.window.position := congrArg Books.baseline hentered
        rw [hbaseline]
        exact ⟨fun _ => hstate, fun _ => rfl⟩
    | renegotiated h old htype hold hne => cases hnot

theorem step_kept {op : Op} (hop : op.packet = none) : (step C E s op T).books = s.books := by
  cases op with
  | startPunch => exact startPunch_books
  | poll => exact poll_books
  | receive p => cases hop
  | sendData inner => exact sendData_books inner
  | sendRoster payload => exact sendToPeer_books _ _
  | closeByUser => exact closeByUser_books

theorem step_state {op : Op} (hop : op.packet = none) :
    (step C E s op T).state = s.state ∨ isTerminal (step C E s op T).state = true := by
  have hdid := step_did (C := C) (E := E) (s := s) (T := T) op
  cases hdid with
  | quiet hstate _ => exact .inl hstate
  | data inner _ hstate _ => exact .inl hstate
  | ended st hst _ hstate _ _ _ _ =>
    rw [hstate]
    exact .inr hst
  | dropped p hop' => simp [hop', Op.packet] at hop
  | renegotiated p old moved hop' => simp [hop', Op.packet] at hop
  | accepted p delivered moved hop' => simp [hop', Op.packet] at hop

theorem inactive_receives (hactive : s.active = false) (p : RxPacket) :
    (step C E s (.receive p) T).books = s.books ∧ acceptedPosition C E s T (.receive p) = none := by
  have hcleared : ({ s with out := [] } : Session).active = false := hactive
  constructor
  · simp only [step, Op.apply, Peer.receive, hcleared, Bool.not_false, if_true]
    rfl
  · unfold acceptedPosition receivedPosition
    dsimp only
    rw [if_neg (by simp [hcleared])]

theorem step_books (hs : InSection s) (hr : Live s ∨ ∃ st, Ended s st) (op : Op) :
    Posted s (step C E s op T) (acceptedPosition C E s T op) ∧ InSection (step C E s op T) := by
  rcases hr with hl | ⟨st, he⟩
  · cases hop : op.packet with
    | none =>
      have hnone : acceptedPosition C E s T op = none := by
        cases op <;> first | rfl | cases hop
      have hkept := step_kept (C := C) (E := E) (s := s) (T := T) hop
      rw [hnone]
      refine ⟨.kept hkept, fun hterminal => ?_⟩
      have hbaseline : (step C E s op T).lossBaseline = s.lossBaseline :=
        congrArg Books.baseline hkept
      rcases step_state (C := C) (E := E) (s := s) (T := T) hop with hstate | hended
      · rw [hbaseline, hstate]
        exact hs hl.terminal
      · rcases state_of_live hterminal with hstate | hstate | hstate <;> rw [hstate] at hended
          <;> cases hended
    | some p =>
      cases op with
      | receive q =>
        obtain ⟨hposted, hsection⟩ :=
          receive_books (C := C) (E := E) (T := T) (s := { s with out := [] })
          (fun _ => hs hl.terminal) hl.terminal q
        refine ⟨?_, hsection⟩
        change Posted s _ (receivedPosition C E { s with out := [] } q T)
        generalize receivedPosition C E { s with out := [] } q T = position at hposted ⊢
        cases hposted with
        | kept h => exact .kept h
        | recorded seq h₁ h₂ h₃ => exact .recorded seq h₁ h₂ h₃
        | entered seq h₁ h₂ h₃ h₄ h₅ h₆ => exact .entered seq h₁ h₂ h₃ h₄ h₅ h₆
        | restarted seq h₁ h₂ h₃ h₄ => exact .restarted seq h₁ h₂ h₃ h₄
      | _ => cases hop
  · have hended := (step_ended (C := C) (E := E) (T := T) he op).1
    refine ⟨?_, fun hterminal => by rw [hended.terminal] at hterminal; cases hterminal⟩
    cases hop : op.packet with
    | none =>
      have hnone : acceptedPosition C E s T op = none := by
        cases op <;> first | rfl | cases hop
      rw [hnone]
      exact .kept (step_kept hop)
    | some p =>
      cases op with
      | receive q =>
        obtain ⟨hkept, hnone⟩ :=
          inactive_receives (C := C) (E := E) (T := T) (not_active_of_ended he) q
        rw [hnone]
        exact .kept hkept
      | _ => cases hop

end Sangtachi.Peer
