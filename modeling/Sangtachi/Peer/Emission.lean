import Sangtachi.Peer.Notices

/-! # What a session sends, and the rosters it takes

Every payload is the encoding of some values, every datagram carries the ids of the session, and the
sequence numbers of the attempts to send follow each other. A roster that is taken is written down
when its generation is new. -/
namespace Sangtachi.Peer

open Sangtachi.BigEndian Sangtachi.Packet Sangtachi.Replay Sangtachi.InnerIpv4

variable {C : SessionConfig} {E : SessionIo} {s s' t : Session} {T : Millis} {op : Op}

def Encoded (C : SessionConfig) (op : Op) (type : PacketType) (payload : List U8) : Prop :=
  match type with
  | .hello | .helloAck => ∃ nonce, payload = encodeHello ⟨nonce, C.localVirtualIp⟩
  | .keepalive => payload = []
  | .data => op = .sendData payload
  | .ping | .pong => ∃ pingId, payload = encodePing pingId
  | .close => ∃ reason, payload = encodeClose reason
  | .roster => op = .sendRoster payload

/-- The i-th datagram of the list carries the i-th number from `first` on. -/
def Numbered (C : SessionConfig) (op : Op) (first : U32) (l : List Sent) : Prop :=
  ∀ (i : ℕ) (d : Sent), l[i]? = some d →
    d.fields = ⟨C.localPeerId, C.localEpoch, first + BitVec.ofNat 32 i⟩ ∧
    Encoded C op d.type d.payload ∧ buildPacket d.type d.fields d.payload maxDatagram = some d.bytes

/-- The roster lines among the calls of an operation. -/
def Event.roster? : Event → Option Roster
  | .line (.roster generation members) => some ⟨generation, members⟩
  | _ => none

def rostersOf (out : List Event) : List Roster := out.filterMap Event.roster?

theorem rostersOf_append (a b : List Event) : rostersOf (a ++ b) = rostersOf a ++ rostersOf b := by
  simp [rostersOf]

/-- What a roster leaves that is taken between the two states: the first one and every one of
another generation is written down. -/
def Told (r : Option Roster) (s s' : Session) : Prop :=
  match r with
  | none => s'.lastGeneration = s.lastGeneration ∧ rostersOf s'.out = rostersOf s.out
  | some r => s'.lastGeneration = some r.generation ∧
      rostersOf s'.out = rostersOf s.out ++ if s.lastGeneration = some r.generation then [] else [r]

/-- Between the two states some datagrams were sent, each attempt under a number of its own, and `r`
is the roster that was taken, if one was. -/
structure Emits (C : SessionConfig) (op : Op) (r : Option Roster) (s s' : Session) : Prop where
  sent : ∃ l, sentOf s'.out = sentOf s.out ++ l ∧
    s'.nextSeq = s.nextSeq + BitVec.ofNat 32 l.length ∧
    s'.sends = s.sends + l.length ∧ Numbered C op s.nextSeq l
  told : Told r s s'

variable {r : Option Roster}

theorem Emits.noted {l : List Event} (hseq : s'.nextSeq = s.nextSeq) (hsends : s'.sends = s.sends)
    (hgeneration : s'.lastGeneration = s.lastGeneration) (hout : s'.out = s.out ++ l)
    (hsent : sentOf l = []) (hrosters : rostersOf l = []) :
    Emits C op none s s' := by
  refine ⟨⟨[], ?_, ?_, hsends, ?_⟩, hgeneration, ?_⟩
  · rw [hout, sentOf_append, hsent]
  · rw [hseq]
    simp
  · intro i d hd
    cases hd
  · rw [hout, rostersOf_append, hrosters, List.append_nil]

theorem Emits.still (hseq : s'.nextSeq = s.nextSeq) (hsends : s'.sends = s.sends)
    (hgeneration : s'.lastGeneration = s.lastGeneration) (hout : s'.out = s.out) :
    Emits C op none s s' :=
  .noted hseq hsends hgeneration (hout.trans (List.append_nil _).symm) rfl rfl

theorem Emits.refl (s : Session) : Emits C op none s s := .still rfl rfl rfl rfl

theorem Told.trans (h : Told none s s') (k : Told r s' t) : Told r s t := by
  obtain ⟨hgeneration, hrosters⟩ := h
  cases r with
  | none => exact ⟨k.1.trans hgeneration, k.2.trans hrosters⟩
  | some r =>
    refine ⟨k.1, ?_⟩
    rw [k.2, hrosters, hgeneration]

theorem Told.after (h : Told r s s') (k : Told none s' t) : Told r s t := by
  obtain ⟨hgeneration, hrosters⟩ := k
  cases r with
  | none => exact ⟨hgeneration.trans h.1, hrosters.trans h.2⟩
  | some r => exact ⟨hgeneration.trans h.1, hrosters.trans h.2⟩

theorem Emits.join {r' r'' : Option Roster} (h : Emits C op r s s') (k : Emits C op r' s' t)
    (htold : Told r'' s t) :
    Emits C op r'' s t := by
  obtain ⟨⟨l, hout, hseq, hsends, hnumbered⟩, -⟩ := h
  obtain ⟨⟨l', hout', hseq', hsends', hnumbered'⟩, -⟩ := k
  refine ⟨⟨l ++ l', by rw [hout', hout, List.append_assoc], ?_, ?_, ?_⟩, htold⟩
  · rw [hseq', hseq, List.length_append, BitVec.ofNat_add, BitVec.add_assoc]
  · rw [hsends', hsends, List.length_append, Nat.add_assoc]
  · intro i d hd
    by_cases hi : i < l.length
    · rw [List.getElem?_append_left hi] at hd
      exact hnumbered i d hd
    · rw [List.getElem?_append_right (not_lt.mp hi)] at hd
      obtain ⟨hfields, hencoded, hbuilt⟩ := hnumbered' _ d hd
      refine ⟨?_, hencoded, hbuilt⟩
      have hsum : s'.nextSeq + BitVec.ofNat 32 (i - l.length) = s.nextSeq + BitVec.ofNat 32 i := by
        rw [hseq, BitVec.add_assoc, ← BitVec.ofNat_add, Nat.add_sub_cancel' (not_lt.mp hi)]
      rw [hfields, hsum]

theorem Emits.trans (h : Emits C op none s s') (k : Emits C op r s' t) : Emits C op r s t :=
  h.join k (h.told.trans k.told)

theorem Emits.after (h : Emits C op r s s') (k : Emits C op none s' t) : Emits C op r s t :=
  h.join k (h.told.after k.told)

theorem SentOne.emits {type : PacketType} {payload : List U8} {dest : Endpoint}
    (hencoded : Encoded C op type payload) (h : SentOne C E s type payload dest s') :
    Emits C op none s s' := by
  cases h with
  | mk counters bytes hbuilt =>
    refine ⟨⟨[nextSent C E s type payload bytes dest], ?_, rfl, rfl, ?_⟩, rfl, ?_⟩
    · rw [sentOf_append]
      rfl
    · intro i d hd
      cases i with
      | zero =>
        obtain rfl := Option.some.inj hd
        refine ⟨?_, hencoded, hbuilt⟩
        simp [nextSent]
      | succ i => cases hd
    · rw [rostersOf_append]
      exact List.append_nil _

theorem sendPacket_emits {type : PacketType} {payload : List U8}
    (hencoded : Encoded C op type payload) (hlength : payloadLengthOk type payload.length = true)
    (dest : Endpoint) :
    Emits C op none s (sendPacket C E s type payload dest).2 :=
  (sendPacket_sentOne dest hlength).1.emits hencoded

theorem Encoded.length {type : PacketType} {payload : List U8} (h : Encoded C op type payload)
    (hdata : type ≠ .data) (hroster : type ≠ .roster) :
    payloadLengthOk type payload.length = true := by
  cases type with
  | hello =>
    obtain ⟨nonce, rfl⟩ := h
    exact (helloLength_ok nonce C.localVirtualIp).1
  | helloAck =>
    obtain ⟨nonce, rfl⟩ := h
    exact (helloLength_ok nonce C.localVirtualIp).2
  | keepalive =>
    obtain rfl : payload = [] := h
    rfl
  | data => exact absurd rfl hdata
  | ping =>
    obtain ⟨pingId, rfl⟩ := h
    rfl
  | pong =>
    obtain ⟨pingId, rfl⟩ := h
    rfl
  | close =>
    obtain ⟨reason, rfl⟩ := h
    rfl
  | roster => exact absurd rfl hroster

theorem sendEach_emits {type : PacketType} {payload : List U8}
    (hencoded : Encoded C op type payload) (hlength : payloadLengthOk type payload.length = true)
    (dests : List Endpoint) :
    Emits C op none s (sendEach C E s type payload dests) := by
  induction dests generalizing s with
  | nil => exact .refl s
  | cons e rest ih => exact (sendPacket_emits hencoded hlength e).trans ih

theorem sendToPeer_emits {type : PacketType} {payload : List U8}
    (hencoded : Encoded C op type payload) (hlength : payloadLengthOk type payload.length = true) :
    Emits C op none s (sendToPeer C E s type payload) := by
  unfold sendToPeer
  cases s.peerEndpoint with
  | none => exact sendEach_emits hencoded hlength _
  | some e => exact sendPacket_emits hencoded hlength e

theorem sendUntilFailure_emits {inner : List U8} (hop : op = .sendData inner)
    (hlength : payloadLengthOk .data inner.length = true) (dests : List Endpoint) :
    Emits C op none s (sendUntilFailure C E s inner dests).2 := by
  induction dests generalizing s with
  | nil => exact .refl s
  | cons e rest ih =>
    have hsend :=
      sendPacket_emits (C := C) (E := E) (s := s) (show Encoded C op .data inner from hop) hlength e
    unfold sendUntilFailure
    generalize sendPacket C E s .data inner e = r at hsend ⊢
    obtain ⟨ok, u⟩ := r
    cases ok with
    | false => exact hsend
    | true => exact hsend.trans ih

theorem sendHelloRound_emits : Emits C op none s (sendHelloRound C E s) :=
  have hencoded : Encoded C op .hello (encodeHello ⟨C.attemptNonce, C.localVirtualIp⟩) :=
    ⟨C.attemptNonce, rfl⟩
  sendEach_emits hencoded (helloLength_ok _ _).1 _

theorem Spend.emits {dest : Endpoint} {granted : Bool} (h : Spend C s dest T granted s') :
    Emits C op none s s' := by
  obtain ⟨counters, milli, stamp, rfl⟩ := h.updates
  exact .still rfl rfl rfl rfl

theorem sendHelloAck_emits (echo : Nonce) (dest : Endpoint) :
    Emits C op none s (sendHelloAck C E s echo dest T) := by
  rcases sendHelloAck_cases (C := C)
    (E := E) s echo dest T with hs | ⟨u, v, counters, hs, hsent, heq⟩
  · exact hs.emits
  · rw [heq]
    have hencoded : Encoded C op .helloAck (encodeHello ⟨echo, C.localVirtualIp⟩) := ⟨echo, rfl⟩
    exact (hs.emits.trans (hsent.emits hencoded)).trans (.still rfl rfl rfl rfl)

theorem sendPong_emits (pingId : U64) (dest : Endpoint) :
    Emits C op none s (sendPong C E s pingId dest T) := by
  rcases sendPong_cases (C := C) (E := E) s pingId dest T with hs | ⟨u, hs, hsent⟩
  · exact hs.emits
  · have hencoded : Encoded C op .pong (encodePing pingId) := ⟨pingId, rfl⟩
    exact hs.emits.trans (hsent.emits hencoded)

theorem startPathProbe_emits (source : Endpoint) :
    Emits C op none s (startPathProbe C E s source T) := by
  have hexpire : Emits C op none s (expireProbes s T) := .still rfl rfl rfl rfl
  unfold startPathProbe
  dsimp only
  generalize expireProbes s T = u at hexpire ⊢
  by_cases hknown : u.probes.any (·.dest = source) = true
  · rw [if_pos hknown]
    exact hexpire
  rw [if_neg hknown]
  by_cases hfull : maxProbePaths ≤ u.probes.length
  · rw [if_pos hfull]
    exact hexpire.trans (.still rfl rfl rfl rfl)
  rw [if_neg hfull]
  have hdraw : Emits C op none u { u with draws := u.draws + 1 } := .still rfl rfl rfl rfl
  cases hdrawn : E.draw u.draws with
  | none => exact hexpire.trans hdraw
  | some nonce =>
    dsimp only
    have hspend : Emits C op none { u with draws := u.draws + 1 }
      (spendFor C { u with draws := u.draws + 1 } source T).2 :=
      (spendFor_spend _ source T).emits
    generalize spendFor C { u with draws := u.draws + 1 } source T = r at hspend ⊢
    obtain ⟨granted, v⟩ := r
    have hspent := (hexpire.trans hdraw).trans hspend
    cases granted with
    | false => exact hspent
    | true =>
      have hregister : Emits C op none v
        { v with probes := v.probes ++ [⟨source, nonce, T, false⟩] } := .still rfl rfl rfl rfl
      have hencoded : Encoded C op .hello (encodeHello ⟨nonce, C.localVirtualIp⟩) := ⟨nonce, rfl⟩
      exact (hspent.trans hregister).trans (sendPacket_emits hencoded (helloLength_ok _ _).1 source)

theorem sendKeepalive_emits : Emits C op none s (sendKeepalive C E s T) := by
  have hencoded : Encoded C op .keepalive [] := rfl
  exact (sendToPeer_emits hencoded rfl).trans (.still rfl rfl rfl rfl)

theorem readRttClock_emits : Emits C op none s (readRttClock E s).2 := by
  unfold readRttClock
  cases E.rttClockUs with
  | none => exact .refl s
  | some clock => exact .still rfl rfl rfl rfl

theorem sendPing_emits : Emits C op none s (sendPing C E s T) := by
  have hexpire : Emits C op none s (expirePings { s with ping := arm T pingIntervalMs } T) :=
    .still rfl rfl rfl rfl
  unfold sendPing
  dsimp only
  generalize expirePings { s with ping := arm T pingIntervalMs } T = u at hexpire ⊢
  by_cases hfull : maxPendingPings ≤ u.pendingPings.length
  · rw [if_pos hfull]
    exact hexpire
  · rw [if_neg hfull]
    have hread : Emits C op none { u with nextPingId := u.nextPingId + 1 }
      (readRttClock E { u with nextPingId := u.nextPingId + 1 }).2 :=
      readRttClock_emits
    generalize readRttClock E { u with nextPingId := u.nextPingId + 1 } = r at hread ⊢
    have hnext : Emits C op none u { u with nextPingId := u.nextPingId + 1 } :=
      .still rfl rfl rfl rfl
    have hencoded : Encoded C op .ping (encodePing u.nextPingId) := ⟨u.nextPingId, rfl⟩
    refine ((hexpire.trans hnext).trans hread).trans
      (Emits.trans ?_ (sendToPeer_emits hencoded rfl))
    exact .still rfl rfl rfl rfl

theorem sendClose_emits (reason : CloseReason) : Emits C op none s (sendClose C E s reason) := by
  unfold sendClose
  cases s.peerEndpoint with
  | none => exact .refl s
  | some e =>
    have hencoded : Encoded C op .close (encodeClose reason) := ⟨reason, rfl⟩
    exact sendPacket_emits hencoded rfl e

/-! ## Transitions and timers -/

theorem Emits.emit {x : Event} (hx : sentOf [x] = []) (hr : rostersOf [x] = []) :
    Emits C op none s (s.emit x) :=
  .noted rfl rfl rfl rfl hx hr

theorem settle_emits (before : SessionState) : Emits C op none s (settle C E s before T) := by
  unfold settle
  dsimp only
  by_cases hsame : s.state = before
  · rw [if_pos hsame]
    exact .refl s
  · rw [if_neg hsame]
    by_cases hconnected : s.state = .connected
    · rw [if_pos hconnected]
      unfold enterConnected
      refine Emits.trans (Emits.trans ?_ sendKeepalive_emits) (.emit rfl rfl)
      exact .still rfl rfl rfl rfl
    · rw [if_neg hconnected]
      exact .emit rfl rfl

theorem enterTerminal_emits (st : SessionState) : Emits C op none s (enterTerminal s st T) := by
  exact .noted rfl rfl rfl rfl rfl rfl

theorem fail_emits (failure : SessionFailure) : Emits C op none s (fail C E s failure T) := by
  have hstop : Emits C op none s (stopTimers s) := .still rfl rfl rfl rfl
  have hclose := hstop.trans (sendClose_emits (E := E) .setupFailed)
  unfold fail
  dsimp only
  generalize sendClose C E (stopTimers s) .setupFailed = u at hclose ⊢
  refine hclose.trans (Emits.trans ?_ (enterTerminal_emits .failed))
  exact .noted rfl rfl rfl rfl rfl rfl

theorem closeByUser_emits : Emits C op none s (closeByUser C E s T) := by
  unfold closeByUser
  by_cases hactive : s.active = true
  · rw [if_neg (by simp [hactive])]
    exact (sendClose_emits _).trans (enterTerminal_emits .closed)
  · rw [if_pos (by simpa using hactive)]
    exact .refl s

theorem startPunch_emits : Emits C op none s (startPunch C E s T).2 := by
  have hstart : Emits C op none s { s with punchStarted := true } := .still rfl rfl rfl rfl
  unfold startPunch
  dsimp only
  by_cases hrefused : (!s.active) = true ∨ s.punchStarted = true
  · rw [if_pos hrefused]
    exact .refl s
  · rw [if_neg hrefused]
    by_cases hconnected : ({ s with punchStarted := true } : Session).state = .connected
    · rw [if_pos hconnected]
      exact hstart
    · rw [if_neg hconnected]
      exact (hstart.trans sendHelloRound_emits).trans (.still rfl rfl rfl rfl)

theorem tick_emits (kind : TimerKind) (timer : Timer) :
    Emits C op none s (emitTick s kind timer T) := .emit rfl rfl

theorem pollHello_emits : Emits C op none s (pollHello C E s T) := by
  unfold pollHello
  by_cases hdue : s.hello.isDue T = true
  · rw [if_pos hdue]
    exact ((tick_emits .hello s.hello).trans sendHelloRound_emits).trans (.still rfl rfl rfl rfl)
  · rw [if_neg hdue]
    exact .refl s

theorem pollKeepalive_emits : Emits C op none s (pollKeepalive C E s T) := by
  unfold pollKeepalive
  by_cases hdue : s.keepalive.isDue T = true
  · rw [if_pos hdue]
    exact (tick_emits .keepalive s.keepalive).trans sendKeepalive_emits
  · rw [if_neg hdue]
    exact .refl s

theorem pollPing_emits : Emits C op none s (pollPing C E s T) := by
  unfold pollPing
  by_cases hdue : s.ping.isDue T = true
  · rw [if_pos hdue]
    exact (tick_emits .ping s.ping).trans sendPing_emits
  · rw [if_neg hdue]
    exact .refl s

theorem poll_emits : Emits C op none s (poll C E s T) := by
  unfold poll
  by_cases hactive : s.active = true
  · rw [if_neg (by simp [hactive])]
    dsimp only
    have hexpire : Emits C op none s (expireProbes s T) := .still rfl rfl rfl rfl
    refine hexpire.trans ?_
    generalize expireProbes s T = u
    by_cases hpunch : u.punch.isDue T = true
    · rw [if_pos hpunch]
      exact (tick_emits .punch u.punch).trans (fail_emits _)
    · rw [if_neg hpunch]
      by_cases hidle : u.idle.isDue T = true
      · rw [if_pos hidle]
        exact (tick_emits .idle u.idle).trans (fail_emits _)
      · rw [if_neg hidle]
        exact (pollHello_emits.trans pollKeepalive_emits).trans pollPing_emits
  · rw [if_pos (by simpa using hactive)]
    exact .refl s

/-! ## Receiving -/

theorem renegotiate_emits (p : RxPacket) (nonce : Nonce) :
    Emits C op none s (renegotiate C E s p nonce T) := by
  have hreset : Emits C op none s (resetForEpoch s p.header.sessionEpoch T) := by
    refine .noted rfl rfl rfl rfl ?_ ?_
    · cases s.pinned <;> rfl
    · cases s.pinned <;> rfl
  have hack := hreset.trans (sendHelloAck_emits (E := E) (T := T) nonce p.source)
  unfold renegotiate
  dsimp only
  generalize sendHelloAck C E (resetForEpoch s p.header.sessionEpoch T) nonce p.source
    T = u at hack ⊢
  have hstop : Emits C op none u (stopTraffic u) := .still rfl rfl rfl rfl
  have hrestart : Emits C op none (stopTraffic u) (restartPunch C E (stopTraffic u) T) := by
    unfold restartPunch
    by_cases hstarted : (stopTraffic u).punchStarted = true
    · rw [if_pos hstarted]
      have harm : Emits C op none (stopTraffic u)
        { stopTraffic u with punch := arm T punchDeadlineMs } := .still rfl rfl rfl rfl
      exact (harm.trans sendHelloRound_emits).trans (.still rfl rfl rfl rfl)
    · rw [if_neg hstarted]
      exact .refl _
  exact ((hack.trans hstop).trans hrestart).trans (settle_emits s.state)

theorem checkEpoch_emits (p : RxPacket) : Emits C op none s (checkEpoch C E s p T).1 := by
  have hsame : ∀ {u : Session}, u = s ∨ u = expireProbes s T → Emits C op none s u := by
    rintro u (rfl | rfl)
    · exact .refl u
    · exact .still rfl rfl rfl rfl
  have hchecked := checkEpoch_cases (C := C) (E := E) s p T
  generalize checkEpoch C E s p T = result at hchecked ⊢
  cases hchecked with
  | refused u c hu => exact hsame hu
  | passed u pass hu _ _ _ => exact hsame hu
  | renegotiated h old _ _ _ _ _ => exact renegotiate_emits p h.nonce

theorem takePong_emits (pingId : U64) : Emits C op none s (takePong E s pingId) := by
  unfold takePong
  dsimp only
  cases s.pendingPings.find? (·.id = pingId) with
  | none => exact .still rfl rfl rfl rfl
  | some ping =>
    have hread : Emits C op none s (readRttClock E s).2 := readRttClock_emits
    cases hclock : E.rttClockUs with
    | none => exact .still rfl rfl rfl rfl
    | some clock =>
      dsimp only
      generalize readRttClock E s = read at hread ⊢
      refine hread.trans ?_
      exact .noted rfl rfl rfl rfl rfl rfl

theorem takeRoster_emits (r : Roster) : Emits C op (some r) s (takeRoster s r) := by
  unfold takeRoster
  by_cases hsame : s.lastGeneration = some r.generation
  · rw [if_pos hsame]
    refine ⟨(Emits.refl s).sent, hsame, ?_⟩
    rw [if_pos hsame, List.append_nil]
  · rw [if_neg hsame]
    refine ⟨⟨[], sentOf_append _ _, (BitVec.add_zero _).symm, rfl, ?_⟩, rfl, ?_⟩
    · intro i d hd
      cases hd
    · rw [if_neg hsame]
      exact rostersOf_append _ _

def rosterOf : EpochPass → Body → Option Roster
  | .other, .roster r => some r
  | _, _ => none

theorem act_emits (p : RxPacket) (pass : EpochPass) (body : Body) (before : SessionState) :
    Emits C op (rosterOf pass body) s (act C E s p pass body before T) := by
  cases pass with
  | hello h renegotiated => exact sendHelloAck_emits h.nonce p.source
  | ack h probe =>
    cases probe with
    | some i => exact .refl s
    | none =>
      unfold act
      dsimp only
      by_cases hconnected : before = .connected
      · rw [if_pos hconnected]
        exact .still rfl rfl rfl rfl
      · rw [if_neg hconnected]
        exact .still rfl rfl rfl rfl
  | other =>
    cases body with
    | bare => exact .refl s
    | close reason => exact .refl s
    | ping pingId => exact sendPong_emits pingId p.source
    | pong pingId => exact takePong_emits pingId
    | roster r => exact takeRoster_emits r
    | data =>
      unfold act actOther
      dsimp only
      by_cases hsink : E.dataSink = true
      · rw [if_pos hsink]
        exact .emit rfl rfl
      · rw [if_neg hsink]
        exact .refl s

theorem learnSource_emits (p : RxPacket) (pass : EpochPass) (d : ReplayDecision) :
    Emits C op none s (learnSource C s p pass d).2 := by
  have hlearn : ∀ u : Session, Emits C op none u (learn u p.source) := by
    intro u
    unfold learn
    by_cases hknown : u.peerEndpoint = some p.source
    · rw [if_pos hknown]
      exact .refl u
    · rw [if_neg hknown]
      exact .noted rfl rfl rfl rfl rfl rfl
  have hadvance : ∀ u : Session,
    Emits C op none u (if d.advanced then learn u p.source else u) := by
    intro u
    by_cases hadvanced : d.advanced = true
    · rw [if_pos hadvanced]
      exact hlearn u
    · rw [if_neg hadvanced]
      exact .refl u
  unfold learnSource
  split
  · next h i =>
    have hanswer : Emits C op none s (markAnswered s i) := .still rfl rfl rfl rfl
    exact hanswer.trans (hadvance _)
  · by_cases hadvanced : d.advanced = true
    · rw [if_pos hadvanced]
      by_cases hverified : isVerified C s p.source = true
      · rw [if_pos hverified]
        exact hlearn s
      · rw [if_neg hverified]
        exact .refl s
    · rw [if_neg hadvanced]
      exact .refl s

theorem applyEffects_emits (p : RxPacket) (pass : EpochPass) (d : ReplayDecision) (body : Body) :
    Emits C op (rosterOf pass body) s (applyEffects C E s p pass d body T).2 := by
  have hpin : Emits C op none s (pin s p.header.sessionEpoch) := by
    unfold pin
    by_cases hnone : s.pinned.isNone = true
    · rw [if_pos hnone]
      exact .still rfl rfl rfl rfl
    · rw [if_neg hnone]
      exact .refl s
  have hlearn := hpin.trans (learnSource_emits p pass d)
  unfold applyEffects
  dsimp only
  generalize learnSource C (pin s p.header.sessionEpoch) p pass d = r at hlearn ⊢
  obtain ⟨probeSource, v⟩ := r
  have hidle : Emits C op none v (renewIdle v s.state T) := by
    unfold renewIdle
    split_ifs
    · exact .still rfl rfl rfl rfl
    · exact .refl v
  have hrenewed := hlearn.trans hidle
  generalize renewIdle v s.state T = w at hrenewed ⊢
  have tail : Emits C op (rosterOf pass body) s (dropWithoutSink E (settle C E (raiseSource C E
      (act C E w p pass body s.state T) p.source probeSource T) s.state T) body).2 := by
    have hact := hrenewed.trans (act_emits (E := E) (T := T) p pass body s.state)
    refine hact.after ?_
    generalize act C E w p pass body s.state T = x
    have hraise : Emits C op none x (raiseSource C E x p.source probeSource T) := by
      unfold raiseSource
      by_cases hprobe : probeSource = true
      · rw [if_pos hprobe]
        exact startPathProbe_emits p.source
      · rw [if_neg hprobe]
        exact .refl x
    have hsettle := hraise.trans (settle_emits (E := E) (T := T) s.state)
    refine hsettle.trans ?_
    unfold dropWithoutSink
    split_ifs
    · exact .still rfl rfl rfl rfl
    · exact .refl _
  cases body with
  | close reason =>
    have hnone : rosterOf pass (.close reason) = none := by
      cases pass <;> rfl
    have hreason : Emits C op none w { w with peerCloseReason := some reason } :=
      .still rfl rfl rfl rfl
    rw [hnone]
    exact (hrenewed.trans hreason).trans (enterTerminal_emits .closed)
  | bare => exact tail
  | data => exact tail
  | ping pingId => exact tail
  | pong pingId => exact tail
  | roster r => exact tail

/-- The roster that a call of the session takes: the packet passes every check, and this is in it.
-/
def taken (C : SessionConfig) (E : SessionIo) (s : Session) (op : Op) (T : Millis) :
    Option Roster :=
  match op with
  | .receive p =>
    if (receive C E { s with out := [] } p T).1 = none ∧ p.type = some .roster then
      (decodeRoster p.payload ⟨C.peerIsHost, s.lastGeneration⟩).toOption
    else none
  | _ => none

theorem checkEpoch_roster {p : RxPacket} {u : Session} {pass : EpochPass}
    (htype : p.type = some .roster) (h : checkEpoch C E s p T = (u, .ok pass)) :
    u = s ∧ pass = .other := by
  unfold checkEpoch at h
  rw [htype] at h
  dsimp only at h
  cases hpinned : s.pinned with
  | none =>
    rw [hpinned] at h
    cases h
  | some epoch =>
    rw [hpinned] at h
    dsimp only at h
    by_cases hstale : p.header.sessionEpoch ≠ epoch
    · rw [if_pos hstale] at h
      cases h
    · rw [if_neg hstale] at h
      cases h
      exact ⟨rfl, rfl⟩

theorem checkType_emits (p : RxPacket) : Emits C op none s (checkType C s p T).1 := by
  have hexpire : Emits C op none s (expirePings s T) := .still rfl rfl rfl rfl
  unfold checkType
  split
  · split_ifs
    · exact .refl s
    · split <;> exact .refl s
  · split <;> exact .refl s
  · split
    · exact .refl s
    · dsimp only
      split_ifs
      · exact hexpire
      · exact hexpire
  · split <;> exact .refl s
  · split <;> exact .refl s
  · exact .refl s

theorem checkType_roster {p : RxPacket} {w : Session} {body : Body}
    (h : checkType C s p T = (w, .ok body)) :
    if p.type = some .roster then
      ∃ r, body = .roster r ∧ decodeRoster p.payload ⟨C.peerIsHost, s.lastGeneration⟩ = .ok r
    else ∀ r, body ≠ .roster r := by
  by_cases htype : p.type = some .roster
  · rw [if_pos htype]
    unfold checkType at h
    rw [htype] at h
    dsimp only at h
    cases hdecode : decodeRoster p.payload ⟨C.peerIsHost, s.lastGeneration⟩ with
    | error e =>
      rw [hdecode] at h
      cases h
    | ok r =>
      rw [hdecode] at h
      cases h
      exact ⟨r, rfl, rfl⟩
  · rw [if_neg htype]
    rintro r rfl
    unfold checkType at h
    split at h
    · split_ifs at h
      · cases h
      · split at h <;> cases h
    · split at h <;> cases h
    · split at h
      · cases h
      · dsimp only at h
        split_ifs at h <;> cases h
    · split at h <;> cases h
    · next hroster => exact htype hroster
    · cases h

theorem receive_emits (p : RxPacket) :
    Emits C op (taken C E s (.receive p) T) { s with out := [] }
    (receive C E { s with out := [] } p T).2 := by
  have hcounted : ∀ (u : Session) (c : Counter), Emits C op none u (u.count c) :=
    fun u c => .still rfl rfl rfl rfl
  have hchecked : ∀ {u w : Session} {result : Except Counter Body},
    checkType C (recorded u p) p T = (w, result) →
      Emits C op none u w := by
    intro u w result htype
    have hrecord : Emits C op none u (recorded u p) := .still rfl rfl rfl rfl
    have hcheck : Emits C op none (recorded u p) (checkType C (recorded u p) p T).1 :=
      checkType_emits p
    rw [htype] at hcheck
    exact hrecord.trans hcheck
  unfold taken
  dsimp only
  generalize hs : ({ s with out := [] } : Session) = s₀
  have hgeneration : s₀.lastGeneration = s.lastGeneration := by rw [← hs]
  rw [← hgeneration]
  have hepoch : Emits C op none s₀ (checkEpoch C E s₀ p T).1 := checkEpoch_emits p
  have hcases := receive_cases (C := C) (E := E) s₀ p T
  generalize receive C E s₀ p T = result at hcases ⊢
  cases hcases with
  | inactive _ =>
    rw [if_neg (by simp)]
    exact hcounted s₀ _
  | refused u c _ hcheck =>
    rw [hcheck] at hepoch
    rw [if_neg (by simp)]
    exact hepoch.trans (hcounted u c)
  | repeated u pass c _ hcheck _ =>
    rw [hcheck] at hepoch
    rw [if_neg (by simp)]
    exact hepoch.trans (hcounted u c)
  | invalid u w pass c _ hcheck _ htype =>
    rw [hcheck] at hepoch
    rw [if_neg (by simp)]
    exact (hepoch.trans (hchecked htype)).trans (hcounted w c)
  | renegotiated u w pass body _ hcheck _ htype hrenegotiated =>
    have hnot : p.type ≠ some .roster := by
      intro hroster
      rw [(checkEpoch_roster hroster hcheck).2] at hrenegotiated
      cases hrenegotiated
    rw [hcheck] at hepoch
    rw [if_neg (fun h => hnot h.2)]
    refine (hepoch.trans (hchecked htype)).trans ?_
    unfold afterRenegotiation
    by_cases hverified : isVerified C w p.source = true
    · rw [if_pos hverified]
      exact .refl w
    · rw [if_neg hverified]
      exact startPathProbe_emits p.source
  | applied u w pass body _ hcheck _ htype _ =>
    have hbody := checkType_roster htype
    have hroster :
      (if (applyEffects C E w p pass (u.window.check p.header.sequence) body T).1 = none ∧
        p.type = some .roster then
        (decodeRoster p.payload ⟨C.peerIsHost, s₀.lastGeneration⟩).toOption else none) =
        rosterOf pass body := by
      by_cases htyped : p.type = some .roster
      · rw [if_pos htyped] at hbody
        obtain ⟨r, rfl, hdecode⟩ := hbody
        obtain ⟨rfl, rfl⟩ := checkEpoch_roster htyped hcheck
        have hnone :
          (applyEffects C E w p .other (u.window.check p.header.sequence) (.roster r) T).1 =
            none := rfl
        rw [if_pos ⟨hnone, htyped⟩]
        exact congrArg Except.toOption hdecode
      · rw [if_neg htyped] at hbody
        rw [if_neg (fun h => htyped h.2)]
        cases pass with
        | hello h renegotiated => rfl
        | ack h probe => rfl
        | other =>
          cases body with
          | roster r => exact absurd rfl (hbody r)
          | bare => rfl
          | data => rfl
          | ping pingId => rfl
          | pong pingId => rfl
          | close reason => rfl
    rw [hcheck] at hepoch
    rw [hroster]
    exact (hepoch.trans (hchecked htype)).trans (applyEffects_emits p pass _ body)

/-- What is given to the session to send has a length that its type allows. -/
def Op.fits : Op → Prop
  | .sendData inner => payloadLengthOk .data inner.length = true
  | .sendRoster payload => payloadLengthOk .roster payload.length = true
  | _ => True

theorem step_emits (hfits : op.fits) : Emits C op (taken C E s op T) { s with out := [] }
    (step C E s op T) := by
  cases op with
  | startPunch => exact startPunch_emits
  | poll => exact poll_emits
  | receive p => exact receive_emits p
  | sendData inner =>
    have hencoded : Encoded C (.sendData inner) .data inner := rfl
    have hsend : Emits C (.sendData inner) none { s with out := [] }
      (sendData C E { s with out := [] } inner).2 := by
      unfold sendData
      cases s.peerEndpoint with
      | none => exact sendUntilFailure_emits rfl hfits _
      | some e => exact sendPacket_emits hencoded hfits e
    exact hsend
  | sendRoster payload =>
    have hencoded : Encoded C (.sendRoster payload) .roster payload := rfl
    exact sendToPeer_emits hencoded hfits
  | closeByUser => exact closeByUser_emits

end Sangtachi.Peer
