import Sangtachi.Peer.Notices

/-! # A dropped packet

A drop leaves the session as it was: the returned counter is raised, probes and pings whose time
is over may go, and a packet that the window took is recorded. Nothing else changes. -/
namespace Sangtachi.Peer

open Sangtachi.BigEndian Sangtachi.Packet Sangtachi.Replay Sangtachi.InnerIpv4

variable {C : SessionConfig} {E : SessionIo} {s : Session} {p : RxPacket} {T : Millis} {c : Counter}

def failedProbes (s : Session) (T : Millis) : ℕ :=
  s.probes.countP fun q => q.expired T && !q.answered

def StoppedByWindow (C : SessionConfig) (E : SessionIo) (s : Session) (p : RxPacket)
    (T : Millis) : Prop :=
  s.active = false ∨ (∃ u c, checkEpoch C E s p T = (u, .error c)) ∨
    (s.window.check p.header.sequence).accepted = false

/-- What a drop with the counter `c` may change. -/
structure LeftAsWas (C : SessionConfig) (E : SessionIo) (s : Session) (p : RxPacket)
    (T : Millis) (c : Counter) (s' : Session) :
    Prop where
  rest : s' = { s with
    counters := s'.counters
    probes := s'.probes
    pendingPings := s'.pendingPings
    window := s'.window
    lossAccepted := s'.lossAccepted }
  counters :
    (s'.probes = s.probes ∧ s'.counters = Function.update s.counters c (s.counters c + 1)) ∨
    ∃ counters, s'.probes = s.probes.filter (fun q => !q.expired T) ∧
      counters = Function.update s.counters .pathProbeFailed
        (s.counters .pathProbeFailed + failedProbes s T) ∧
      s'.counters = Function.update counters c (counters c + 1)
  pings : s'.pendingPings = s.pendingPings ∨
    s'.pendingPings = s.pendingPings.filter fun q => !(timeAfter q.sentMs pendingPingTtlMs ≤ T)
  stopped : StoppedByWindow C E s p T → s'.window = s.window ∧ s'.lossAccepted = s.lossAccepted
  recorded : ¬StoppedByWindow C E s p T → s'.window = (recorded s p).window ∧
    s'.lossAccepted = (recorded s p).lossAccepted

theorem checkType_refused {v w : Session} (h : checkType C v p T = (w, .error c)) :
    w = v ∨ w = expirePings v T := by
  unfold checkType at h
  split at h
  case h_1 =>
    split_ifs at h
    · exact .inl (Prod.mk.inj h).1.symm
    · split at h
      case h_1 => exact .inl (Prod.mk.inj h).1.symm
      case h_2 => simp at h
  case h_2 =>
    split at h
    case h_1 => exact .inl (Prod.mk.inj h).1.symm
    case h_2 => simp at h
  case h_3 =>
    split at h
    case h_1 => exact .inl (Prod.mk.inj h).1.symm
    case h_2 =>
      dsimp only at h
      split_ifs at h
      · simp at h
      · exact .inr (Prod.mk.inj h).1.symm
  case h_4 =>
    split at h
    case h_1 => exact .inl (Prod.mk.inj h).1.symm
    case h_2 => simp at h
  case h_5 =>
    split at h
    case h_1 => exact .inl (Prod.mk.inj h).1.symm
    case h_2 => simp at h
  case h_6 => simp at h

theorem applyEffects_result {w : Session} (pass : EpochPass) (d : ReplayDecision) (body : Body) :
    (applyEffects C E w p pass d body T).1 = none ∨
    (applyEffects C E w p pass d body T).1 = some .dropNoSink := by
  have hsink : ∀ (u : Session) (body : Body), (dropWithoutSink E u body).1 = none ∨
      (dropWithoutSink E u body).1 = some .dropNoSink := by
    intro u body
    unfold dropWithoutSink
    split_ifs
    · exact .inr rfl
    · exact .inl rfl
  unfold applyEffects
  dsimp only
  cases body with
  | close reason => exact .inl rfl
  | bare => exact hsink _ _
  | data => exact hsink _ _
  | ping pingId => exact hsink _ _
  | pong pingId => exact hsink _ _
  | roster r => exact hsink _ _

theorem leftAsWas_stopped {u : Session} (hu : u = s ∨ u = expireProbes s T)
    (hstop : StoppedByWindow C E s p T) :
    LeftAsWas C E s p T c (u.count c) := by
  rcases hu with rfl | rfl
  · exact ⟨rfl, .inl ⟨rfl, rfl⟩, .inl rfl, fun _ => ⟨rfl, rfl⟩, fun hnot => absurd hstop hnot⟩
  · exact ⟨rfl, .inr ⟨_, rfl, rfl, rfl⟩, .inl rfl, fun _ => ⟨rfl, rfl⟩,
      fun hnot => absurd hstop hnot⟩

/-- A drop that was decided on the recorded session, whose expired pings may be gone too. -/
theorem leftAsWas_recorded {u w : Session} (hu : u = s ∨ u = expireProbes s T)
    (hw : w = recorded u p ∨ w = expirePings (recorded u p) T)
    (hgone : ¬StoppedByWindow C E s p T) :
    LeftAsWas C E s p T c (w.count c) := by
  rcases hu with rfl | rfl
  · rcases hw with rfl | rfl
    · exact ⟨rfl, .inl ⟨rfl, rfl⟩, .inl rfl, fun hstop => absurd hstop hgone, fun _ => ⟨rfl, rfl⟩⟩
    · exact ⟨rfl, .inl ⟨rfl, rfl⟩, .inr rfl, fun hstop => absurd hstop hgone, fun _ => ⟨rfl, rfl⟩⟩
  · rcases hw with rfl | rfl
    · exact ⟨rfl, .inr ⟨_, rfl, rfl, rfl⟩, .inl rfl, fun hstop => absurd hstop hgone,
        fun _ => ⟨rfl, rfl⟩⟩
    · exact ⟨rfl, .inr ⟨_, rfl, rfl, rfl⟩, .inr rfl, fun hstop => absurd hstop hgone,
        fun _ => ⟨rfl, rfl⟩⟩

theorem receive_dropped (hdrop : (receive C E s p T).1 = some c) (hsink : c ≠ .dropNoSink) :
    LeftAsWas C E s p T c (receive C E s p T).2 := by
  have hreceived := receive_cases (C := C) (E := E) s p T
  have hchecked := checkEpoch_cases (C := C) (E := E) s p T
  generalize receive C E s p T = result at hreceived hdrop ⊢
  cases hreceived with
  | inactive hactive =>
    obtain rfl := Option.some.inj hdrop
    exact leftAsWas_stopped (.inl rfl) (.inl hactive)
  | refused u c' hactive hcheck =>
    obtain rfl := Option.some.inj hdrop
    rw [hcheck] at hchecked
    cases hchecked with
    | refused _ _ hu => exact leftAsWas_stopped hu (.inr (.inl ⟨u, c', hcheck⟩))
  | repeated u pass c' hactive hcheck hrejected =>
    obtain rfl := Option.some.inj hdrop
    rw [hcheck] at hchecked
    cases hchecked with
    | passed _ _ hu _ _ _ =>
      have hwindow : u.window = s.window := by rcases hu with rfl | rfl <;> rfl
      exact leftAsWas_stopped hu (.inr (.inr (hwindow ▸ hrejected)))
    | renegotiated h old htype hold hne =>
      rw [(renegotiated_passes _ htype hold).1] at hrejected
      cases hrejected
  | invalid u w pass c' hactive hcheck haccepted htyped =>
    obtain rfl := Option.some.inj hdrop
    rw [hcheck] at hchecked
    cases hchecked with
    | passed _ _ hu _ _ _ =>
      have hwindow : u.window = s.window := by rcases hu with rfl | rfl <;> rfl
      refine leftAsWas_recorded hu (checkType_refused htyped) ?_
      rintro (hinactive | ⟨u', c'', hrefused⟩ | hrejected)
      · rw [hactive] at hinactive
        cases hinactive
      · rw [hcheck] at hrefused
        simp at hrefused
      · rw [← hwindow, haccepted] at hrejected
        cases hrejected
    | renegotiated h old htype hold hne =>
      rw [(renegotiated_passes _ htype hold).2] at htyped
      simp at htyped
  | renegotiated u w pass body hactive hcheck haccepted htyped hreneg => cases hdrop
  | applied u w pass body hactive hcheck haccepted htyped hnot =>
    rcases applyEffects_result (C := C) (E := E) (w := w) (p := p) (T := T) pass
      (u.window.check p.header.sequence) body with hnone | hnosink
    · rw [hnone] at hdrop
      cases hdrop
    · rw [hnosink] at hdrop
      exact absurd (Option.some.inj hdrop).symm hsink

theorem renegotiation_accepted {u : Session} {h : HelloPayload} (hactive : s.active = true)
    (hcheck : checkEpoch C E s p T = (u, .ok (.hello h true))) : (receive C E s p T).1 = none := by
  have hreceived := receive_cases (C := C) (E := E) s p T
  have hchecked := checkEpoch_cases (C := C) (E := E) s p T
  rw [hcheck] at hchecked
  cases hchecked with
  | passed _ _ _ hnot _ _ => cases hnot
  | renegotiated _ old htype hold hne =>
    obtain ⟨haccepted, htyped⟩ := renegotiated_passes (C := C) (E := E) (T := T) h.nonce htype hold
    generalize receive C E s p T = result at hreceived ⊢
    cases hreceived with
    | inactive hinactive =>
      rw [hactive] at hinactive
      cases hinactive
    | refused u' c' _ hcheck' =>
      rw [hcheck] at hcheck'
      simp at hcheck'
    | repeated u' pass c' _ hcheck' hrejected =>
      obtain ⟨rfl, -⟩ := Prod.mk.inj (hcheck.symm.trans hcheck')
      rw [haccepted] at hrejected
      cases hrejected
    | invalid u' w pass c' _ hcheck' _ htyped' =>
      obtain ⟨rfl, -⟩ := Prod.mk.inj (hcheck.symm.trans hcheck')
      rw [htyped] at htyped'
      simp at htyped'
    | renegotiated => rfl
    | applied u' w pass body _ hcheck' _ _ hnot =>
      obtain ⟨-, hpass⟩ := Prod.mk.inj (hcheck.symm.trans hcheck')
      obtain rfl := Except.ok.inj hpass
      cases hnot

end Sangtachi.Peer
