import Sangtachi.Peer.Drops

/-! # The drop counters of a session

Which drop counters a reception raises. Only the budget and the probes raise one besides the
counter of the packet itself, and a packet that is dropped reaches them in one place alone: DATA
that no sink takes. -/
namespace Sangtachi.Peer

open Sangtachi.BigEndian Sangtachi.Packet Sangtachi.Replay Sangtachi.InnerIpv4

variable {C : SessionConfig} {E : SessionIo} {s s' t : Session} {p : RxPacket}
  {T : Millis} {c : Counter}

/-- The other counters record what became of packets that were taken or sent. -/
def Counter.isDrop : Counter → Bool
  | .dupAck | .endpointLearned | .pathProbeFailed | .txErrAck | .txErrSend => false
  | _ => true

/-- The drop counters went up by `cs`, each as often as it stands there. -/
def RaisedBy (s s' : Session) (cs : List Counter) : Prop :=
  ∀ d : Counter, d.isDrop = true → s'.counters d = s.counters d + cs.count d

theorem RaisedBy.refl (s : Session) : RaisedBy s s [] := fun _ _ => rfl

theorem RaisedBy.trans {cs ds : List Counter} (h : RaisedBy s s' cs) (k : RaisedBy s' t ds) :
    RaisedBy s t (cs ++ ds) := by
  intro d hd
  rw [k d hd, h d hd, List.count_append, Nat.add_assoc]

theorem raisedBy_same (h : s'.counters = s.counters) : RaisedBy s s' [] := by
  intro d _
  rw [h]
  rfl

theorem count_raised (s : Session) (c : Counter) : RaisedBy s (s.count c) [c] := by
  intro d _
  unfold Session.count
  dsimp only
  by_cases hd : d = c
  · subst hd
    rw [Function.update_self, List.count_singleton_self]
  · rw [Function.update_of_ne hd, List.count_singleton]
    simp [Ne.symm hd]

theorem update_raised {n : ℕ} (hc : c.isDrop = false) :
    RaisedBy s { s with counters := Function.update s.counters c n } [] := by
  intro d hd
  have hne : d ≠ c := by
    rintro rfl
    rw [hc] at hd
    cases hd
  exact Function.update_of_ne hne _ _

theorem expireProbes_raised : RaisedBy s (expireProbes s T) [] :=
  update_raised (c := .pathProbeFailed) rfl

/-! ## Sending -/

theorem sendPacket_raised (type : PacketType) (payload : List U8) (dest : Endpoint) :
    RaisedBy s (sendPacket C E s type payload dest).2 [] := by
  unfold sendPacket
  dsimp only
  split
  · exact raisedBy_same rfl
  · split_ifs
    · exact raisedBy_same rfl
    · exact update_raised (c := .txErrSend) rfl

theorem sendEach_raised (type : PacketType) (payload : List U8) (dests : List Endpoint) :
    RaisedBy s (sendEach C E s type payload dests) [] := by
  unfold sendEach
  induction dests generalizing s with
  | nil => exact .refl s
  | cons e rest ih => exact (sendPacket_raised type payload e).trans ih

theorem sendToPeer_raised (type : PacketType) (payload : List U8) :
    RaisedBy s (sendToPeer C E s type payload) [] := by
  unfold sendToPeer
  split
  · exact sendPacket_raised type payload _
  · exact sendEach_raised type payload _

theorem settle_raised (s : Session) (before : SessionState) :
    RaisedBy s (settle C E s before T) [] := by
  unfold settle
  dsimp only
  split_ifs
  · exact .refl s
  · have hsent := sendToPeer_raised (C := C) (E := E) (s := { s with
      hello := { s.hello with due := none }
      punch := { s.punch with due := none }
      lossBaseline := some s.window.position
      lossAccepted := 0
      idle := arm T idleTimeoutMs
      ping := arm T pingIntervalMs }) .keepalive []
    exact fun d hd => hsent d hd
  · exact raisedBy_same rfl

/-- The one drop counter a probe can raise besides that of its packet. -/
inductive ProbeCost : List Counter → Prop where
  | nothing : ProbeCost []
  | full : ProbeCost [.dropProbeFull]
  | budget : ProbeCost [.dropUnverifiedTx]

theorem spendFor_raised (s : Session) (dest : Endpoint) :
    ∃ cs, RaisedBy s (spendFor C s dest T).2 cs ∧
      (cs = [] ∨ cs = [.dropUnverifiedTx] ∧ (spendFor C s dest T).1 = false) := by
  obtain ⟨milli, stamp, hr⟩ := refillBudget_updates s T
  have hspend := spendFor_spend (C := C) s dest T
  generalize spendFor C s dest T = result at hspend ⊢
  obtain ⟨granted, u⟩ := result
  cases hspend with
  | free _ => exact ⟨[], .refl _, .inl rfl⟩
  | refused _ _ =>
    have hrefilled : RaisedBy s (refillBudget s T) [] := raisedBy_same (by rw [hr])
    exact ⟨[.dropUnverifiedTx], hrefilled.trans (count_raised _ _), .inr ⟨rfl, rfl⟩⟩
  | paid _ _ =>
    rw [hr]
    exact ⟨[], raisedBy_same rfl, .inl rfl⟩

theorem startPathProbe_raised (source : Endpoint) :
    ∃ cs, RaisedBy s (startPathProbe C E s source T) cs ∧ ProbeCost cs := by
  have hexpired : RaisedBy s (expireProbes s T) [] := expireProbes_raised
  unfold startPathProbe
  dsimp only
  split_ifs with hknown hfull
  · exact ⟨[], hexpired, .nothing⟩
  · exact ⟨[.dropProbeFull], hexpired.trans (count_raised _ _), .full⟩
  · split
    · exact ⟨[], hexpired.trans (raisedBy_same rfl), .nothing⟩
    · next nonce _ =>
      obtain ⟨cs, hspent, hcs⟩ := spendFor_raised (C := C) (T := T)
        { expireProbes s T with draws := (expireProbes s T).draws + 1 } source
      generalize spendFor C { expireProbes s T with draws := (expireProbes s T).draws + 1 } source
        T = result at hspent hcs ⊢
      obtain ⟨granted, u⟩ := result
      have hu : RaisedBy s u cs :=
        fun d hd => (hspent d hd).trans (congrArg (· + cs.count d) (hexpired d hd))
      cases granted with
      | false =>
        rcases hcs with rfl | ⟨rfl, -⟩
        · exact ⟨[], hu, .nothing⟩
        · exact ⟨[.dropUnverifiedTx], hu, .budget⟩
      | true =>
        rcases hcs with rfl | ⟨-, hfalse⟩
        · have hsent := sendPacket_raised (C := C) (E := E)
            (s := { u with probes := u.probes ++ [⟨source, nonce, T, false⟩] })
            .hello (encodeHello ⟨nonce, C.localVirtualIp⟩) source
          exact ⟨[], hu.trans (fun d hd => hsent d hd), .nothing⟩
        · cases hfalse

/-! ## Receiving -/

theorem toCounter_isDrop (err : PacketError) : (PacketError.toCounter err).isDrop = true := by
  cases err <;> rfl

theorem innerCounter_isDrop (err : InnerError) : (InnerError.toCounter err).isDrop = true := by
  cases err <;> rfl

theorem checkEpoch_isDrop {u : Session} (h : checkEpoch C E s p T = (u, .error c)) :
    c.isDrop = true := by
  have hhello : ∀ {c}, checkHello C p = .error c → c.isDrop = true := by
    intro c h
    unfold checkHello at h
    split at h
    · exact Except.error.inj h ▸ rfl
    · split_ifs at h
      exact Except.error.inj h ▸ rfl
  unfold checkEpoch at h
  split at h
  case h_1 =>
    split at h
    case h_1 c' hcheck =>
      obtain rfl := Except.error.inj (Prod.mk.inj h).2
      exact hhello hcheck
    case h_2 =>
      unfold checkEpochHello at h
      split at h
      case h_1 => simp at h
      case h_2 =>
        split_ifs at h
        · simp at h
        · exact Except.error.inj (Prod.mk.inj h).2 ▸ rfl
        · exact Except.error.inj (Prod.mk.inj h).2 ▸ rfl
        · simp at h
  case h_2 =>
    split at h
    case h_1 c' hcheck =>
      obtain rfl := Except.error.inj (Prod.mk.inj h).2
      exact hhello hcheck
    case h_2 =>
      unfold checkEpochAck at h
      dsimp only at h
      split at h
      case h_1 =>
        split_ifs at h
        · simp at h
        · exact Except.error.inj (Prod.mk.inj h).2 ▸ rfl
      case h_2 =>
        split_ifs at h
        · exact Except.error.inj (Prod.mk.inj h).2 ▸ rfl
        · exact Except.error.inj (Prod.mk.inj h).2 ▸ rfl
        · simp at h
  case h_3 =>
    split at h
    case h_1 => exact Except.error.inj (Prod.mk.inj h).2 ▸ rfl
    case h_2 =>
      split_ifs at h
      · exact Except.error.inj (Prod.mk.inj h).2 ▸ rfl
      · simp at h

theorem checkType_isDrop {w : Session} (h : checkType C s p T = (w, .error c)) :
    c.isDrop = true := by
  unfold checkType at h
  split at h
  case h_1 =>
    split_ifs at h
    · exact Except.error.inj (Prod.mk.inj h).2 ▸ rfl
    · split at h
      case h_1 err _ =>
        obtain rfl := Except.error.inj (Prod.mk.inj h).2
        exact innerCounter_isDrop err
      case h_2 => simp at h
  case h_2 =>
    split at h
    case h_1 => exact Except.error.inj (Prod.mk.inj h).2 ▸ rfl
    case h_2 => simp at h
  case h_3 =>
    split at h
    case h_1 => exact Except.error.inj (Prod.mk.inj h).2 ▸ rfl
    case h_2 =>
      dsimp only at h
      split_ifs at h
      · simp at h
      · exact Except.error.inj (Prod.mk.inj h).2 ▸ rfl
  case h_4 =>
    split at h
    case h_1 err _ =>
      obtain rfl := Except.error.inj (Prod.mk.inj h).2
      exact toCounter_isDrop err
    case h_2 => simp at h
  case h_5 =>
    split at h
    case h_1 err _ =>
      obtain rfl := Except.error.inj (Prod.mk.inj h).2
      exact toCounter_isDrop err
    case h_2 => simp at h
  case h_6 => simp at h

theorem receive_isDrop (h : (receive C E s p T).1 = some c) : c.isDrop = true := by
  unfold receive at h
  split_ifs at h
  · exact Option.some.inj h ▸ rfl
  · split at h
    case h_1 u c' hcheck =>
      obtain rfl := Option.some.inj h
      exact checkEpoch_isDrop hcheck
    case h_2 u pass hcheck =>
      unfold receivePassed at h
      split at h
      split at h
      case h_1 => exact Option.some.inj h ▸ rfl
      case h_2 => exact Option.some.inj h ▸ rfl
      case h_3 =>
        split at h
        case h_1 w c' htyped =>
          obtain rfl := Option.some.inj h
          exact checkType_isDrop htyped
        case h_2 w body htyped =>
          split_ifs at h
          rcases applyEffects_result (C := C) (E := E) (w := w) (p := p)
            (T := T) pass _ body with hnone | hnosink
          · rw [hnone] at h
            cases h
          · rw [hnosink] at h
            exact Option.some.inj h ▸ rfl

theorem checkEpoch_data {u : Session} {pass : EpochPass} (htype : p.type = some .data)
    (h : checkEpoch C E s p T = (u, .ok pass)) : u = s ∧ pass = .other := by
  unfold checkEpoch at h
  rw [htype] at h
  dsimp only at h
  split at h
  case h_1 => simp at h
  case h_2 =>
    split_ifs at h
    · simp at h
    · obtain ⟨rfl, hpass⟩ := Prod.mk.inj h
      exact ⟨rfl, (Except.ok.inj hpass).symm⟩

theorem applyEffects_dropped {w : Session} {pass : EpochPass} {d : ReplayDecision} {body : Body}
    (h : (applyEffects C E w p pass d body T).1 = some c) :
    body = .data ∧ c = .dropNoSink ∧ E.dataSink = false := by
  have hsink : ∀ (u : Session) (body : Body), (dropWithoutSink E u body).1 = some c →
      body = .data ∧ c = .dropNoSink ∧ E.dataSink = false := by
    intro u body h
    unfold dropWithoutSink at h
    split_ifs at h with hdata
    exact ⟨hdata.1, (Option.some.inj h).symm, by simpa using hdata.2⟩
  unfold applyEffects at h
  dsimp only at h
  cases body with
  | close reason => cases h
  | bare => exact hsink _ _ h
  | data => exact hsink _ _ h
  | ping pingId => exact hsink _ _ h
  | pong pingId => exact hsink _ _ h
  | roster r => exact hsink _ _ h

theorem learnSource_raised (w : Session) (d : ReplayDecision) :
    RaisedBy w (learnSource C w p .other d).2 [] ∧
      ((learnSource C w p .other d).1 = true → isVerified C w p.source = false ∧
        d.advanced = true) := by
  have hlearn : RaisedBy w (learn w p.source) [] := by
    unfold learn
    split_ifs
    · exact .refl w
    · exact update_raised (c := .endpointLearned) rfl
  unfold learnSource
  dsimp only
  split_ifs with hadvanced hverified
  · exact ⟨hlearn, fun h => absurd h (by simp)⟩
  · exact ⟨.refl w, fun _ => ⟨by simpa using hverified, hadvanced⟩⟩
  · exact ⟨.refl w, fun h => absurd h (by simp)⟩

theorem renewIdle_raised (w : Session) (before : SessionState) :
    RaisedBy w (renewIdle w before T) [] ∧ (renewIdle w before T).terminal = w.terminal := by
  unfold renewIdle
  split_ifs
  · exact ⟨raisedBy_same rfl, rfl⟩
  · exact ⟨.refl w, rfl⟩

theorem pin_raised (w : Session) (epoch : U32) :
    RaisedBy w (pin w epoch) [] ∧
    isVerified C (pin w epoch) p.source = isVerified C w p.source := by
  unfold pin
  split_ifs
  · exact ⟨raisedBy_same rfl, rfl⟩
  · exact ⟨.refl w, rfl⟩

theorem applyEffects_unsunk {w : Session} {d : ReplayDecision} (hsink : E.dataSink = false) :
    (applyEffects C E w p .other d .data T).2.terminal = w.terminal ∧
      (RaisedBy w (applyEffects C E w p .other d .data T).2 [.dropNoSink] ∨
        ∃ cs, RaisedBy w (applyEffects C E w p .other d .data T).2 (cs ++ [.dropNoSink]) ∧
          ProbeCost cs ∧
          isVerified C w p.source = false ∧ d.advanced = true) := by
  obtain ⟨hpinned, hverified⟩ := pin_raised (C := C) (p := p) w p.header.sessionEpoch
  obtain ⟨hlearned, hprobe⟩ := learnSource_raised (C := C) (p := p) (pin w p.header.sessionEpoch) d
  have hsame := (pin_same (s := w) p.header.sessionEpoch).trans
    (learnSource_same (C := C) (s := pin w p.header.sessionEpoch) p .other d)
  unfold applyEffects
  dsimp only
  generalize learnSource C (pin w p.header.sessionEpoch) p .other d =
    result at hlearned hprobe hsame ⊢
  obtain ⟨probeSource, u⟩ := result
  dsimp only at hlearned hprobe hsame ⊢
  obtain ⟨hrenewed, hterminal⟩ := renewIdle_raised (T := T) u w.state
  generalize renewIdle u w.state T = v at hrenewed hterminal ⊢
  have hact : act C E v p .other .data w.state T = v := by
    unfold act actOther
    dsimp only
    rw [hsink]
    rfl
  have hv : RaisedBy w v [] := (hpinned.trans hlearned).trans hrenewed
  rw [hact]
  have hraised := raiseSource_unnoticed (C := C) (E := E) (T := T) (s := v) p.source probeSource
  have hdropped : ∀ x : Session,
    dropWithoutSink E x .data = (some .dropNoSink, x.count .dropNoSink) := by
    intro x
    unfold dropWithoutSink
    rw [if_pos ⟨rfl, by rw [hsink]; rfl⟩]
  rw [hdropped]
  obtain ⟨-, hheld, -⟩ := settle_notices (C := C) (E := E) (T := T)
    (s := raiseSource C E v p.source probeSource T) w.state
  constructor
  · exact hheld.terminal.trans (hraised.terminal.trans (hterminal.trans hsame.terminal))
  · unfold raiseSource
    by_cases hsource : probeSource = true
    · rw [if_pos hsource]
      obtain ⟨cs, hcs, hcost⟩ := startPathProbe_raised (C := C) (E := E) (T := T) (s := v) p.source
      obtain ⟨hunverified, hadvanced⟩ := hprobe hsource
      refine .inr ⟨cs, ?_, hcost, hverified ▸ hunverified, hadvanced⟩
      have hall := ((hv.trans hcs).trans (settle_raised (C := C) (E := E) (T := T) _ w.state)).trans
        (count_raised _ .dropNoSink)
      rwa [List.nil_append, List.append_nil] at hall
    · rw [if_neg hsource]
      exact .inl ((hv.trans (settle_raised (C := C) (E := E) (T := T) _ w.state)).trans
        (count_raised _ .dropNoSink))

/-- What a reception that drops the packet with `c` does to the drop counters. -/
theorem receive_raises (hdrop : (receive C E s p T).1 = some c) :
    (receive C E s p T).2.active = s.active ∧ (RaisedBy s (receive C E s p T).2 [c] ∨
      ∃ cs, c = .dropNoSink ∧ RaisedBy s (receive C E s p T).2 (cs ++ [c]) ∧ ProbeCost cs ∧
        isVerified C s p.source = false ∧ (s.window.check p.header.sequence).advanced = true) := by
  have hreceived := receive_cases (C := C) (E := E) s p T
  have hchecked := checkEpoch_cases (C := C) (E := E) s p T
  have hexpired : ∀ {u}, u = s ∨ u = expireProbes s T →
    RaisedBy s u [] ∧ u.terminal = s.terminal := by
    rintro u (rfl | rfl)
    · exact ⟨.refl _, rfl⟩
    · exact ⟨expireProbes_raised, rfl⟩
  have hstopped : ∀ {u c}, RaisedBy s u [] ∧ u.terminal = s.terminal →
      (u.count c).active = s.active ∧ RaisedBy s (u.count c) [c] := by
    intro u c hu
    exact ⟨@active_of_terminal s u hu.2, hu.1.trans (count_raised u c)⟩
  generalize receive C E s p T = result at hreceived hdrop ⊢
  cases hreceived with
  | inactive hactive =>
    obtain rfl := Option.some.inj hdrop
    exact (hstopped (hexpired (.inl rfl))).imp_right .inl
  | refused u c' hactive hcheck =>
    obtain rfl := Option.some.inj hdrop
    rw [hcheck] at hchecked
    cases hchecked with
    | refused _ _ hu => exact (hstopped (hexpired hu)).imp_right .inl
  | repeated u pass c' hactive hcheck hrejected =>
    obtain rfl := Option.some.inj hdrop
    rw [hcheck] at hchecked
    cases hchecked with
    | passed _ _ hu _ _ _ => exact (hstopped (hexpired hu)).imp_right .inl
    | renegotiated h old htype hold hne =>
      rw [(renegotiated_passes _ htype hold).1] at hrejected
      cases hrejected
  | invalid u w pass c' hactive hcheck haccepted htyped =>
    obtain rfl := Option.some.inj hdrop
    rw [hcheck] at hchecked
    cases hchecked with
    | passed _ _ hu _ _ _ =>
      obtain ⟨hraised, hterminal⟩ := hexpired hu
      refine (hstopped ?_).imp_right .inl
      rcases checkType_refused htyped with rfl | rfl
      · exact ⟨hraised.trans (raisedBy_same rfl), hterminal⟩
      · exact ⟨hraised.trans (raisedBy_same rfl), hterminal⟩
    | renegotiated h old htype hold hne =>
      rw [(renegotiated_passes _ htype hold).2] at htyped
      simp at htyped
  | renegotiated u w pass body hactive hcheck haccepted htyped hreneg => cases hdrop
  | applied u w pass body hactive hcheck haccepted htyped hnot =>
    obtain ⟨rfl, hc, hsink⟩ := applyEffects_dropped hdrop
    obtain ⟨htype, -, -⟩ := checkType_data htyped
    obtain ⟨rfl, rfl⟩ := checkEpoch_data htype hcheck
    have hw : w.terminal = u.terminal ∧ RaisedBy u w [] ∧
      isVerified C w p.source = isVerified C u p.source := by
      unfold checkType at htyped
      rw [htype] at htyped
      dsimp only at htyped
      split_ifs at htyped
      · simp at htyped
      · split at htyped
        · simp at htyped
        · obtain rfl := (Prod.mk.inj htyped).1
          exact ⟨rfl, raisedBy_same rfl, rfl⟩
    obtain ⟨hterminal, hraised, hverified⟩ := hw
    obtain ⟨hterm, hcounters⟩ := applyEffects_unsunk (C := C) (E := E) (p := p) (T := T) (w := w)
      (d := u.window.check p.header.sequence) hsink
    refine ⟨active_of_terminal (hterm.trans hterminal), ?_⟩
    rcases hcounters with hone | ⟨cs, hcs, hcost, hunverified, hadvanced⟩
    · exact .inl (hc ▸ hraised.trans hone)
    · exact .inr ⟨cs, hc, hc ▸ hraised.trans hcs, hcost, hverified ▸ hunverified, hadvanced⟩

end Sangtachi.Peer
