import Sangtachi.Peer.Replies

/-! # Path redirect safety

The peer endpoint leaves the candidates only for an address the session probed itself, on an
answer to that probe while it is live. The table of probes is traced back to the calls that
registered them. -/
namespace Sangtachi.Peer

open Sangtachi.BigEndian Sangtachi.Packet Sangtachi.Replay Sangtachi.InnerIpv4

variable {C : SessionConfig} {E : SessionIo} {s₀ s s' : Session} {T : Millis}
  {rx : Option RxPacket}

/-- The same path under the same nonce since the same time; only the echo may have come. -/
def SameProbe (q q' : ProbePath) : Prop :=
  q'.dest = q.dest ∧ q'.nonce = q.nonce ∧ q'.registered = q.registered

/-- The HELLO of a probe is among the calls made so far. -/
def ProbeSent (C : SessionConfig) (out : List Event) (q : ProbePath) : Prop :=
  ∃ d, Event.sent d ∈ out ∧ d.type = .hello ∧ d.dest = q.dest ∧
    d.payload = encodeHello ⟨q.nonce, C.localVirtualIp⟩

/-- Inside one operation: each probe is an old one or was registered just now, and the endpoint is
the old one, a candidate, or the source of an answer to a live probe. -/
structure Traced (C : SessionConfig) (s₀ : Session) (rx : Option RxPacket) (T : Millis)
    (s : Session) : Prop where
  probes : ∀ q ∈ s.probes, (∃ q₀ ∈ s₀.probes, SameProbe q q₀) ∨
    (q.registered = T ∧ ProbeSent C s.out q)
  endpoint : s.peerEndpoint = s₀.peerEndpoint ∨ ∃ p, rx = some p ∧
    s.peerEndpoint = some p.source ∧ (p.source ∈ C.candidates ∨ Answers s₀ p T)

theorem SameProbe.refl (q : ProbePath) : SameProbe q q := ⟨rfl, rfl, rfl⟩

theorem SameProbe.trans {a b c : ProbePath} (h : SameProbe a b) (k : SameProbe b c) :
    SameProbe a c := ⟨k.1.trans h.1, k.2.1.trans h.2.1, k.2.2.trans h.2.2⟩

theorem ProbeSent.congr {out out' : List Event} {q q' : ProbePath} (h : ProbeSent C out q)
    (hq : SameProbe q' q) (ho : ∀ d, Event.sent d ∈ out → Event.sent d ∈ out') :
    ProbeSent C out' q' := by
  obtain ⟨d, hd, ht, hdest, hp⟩ := h
  exact ⟨d, ho d hd, ht, hdest.trans hq.1, by rw [hp, hq.2.1]⟩

theorem Traced.mono (h : Traced C s₀ rx T s)
    (hp : ∀ q ∈ s'.probes, ∃ q' ∈ s.probes, SameProbe q q')
    (he : s'.peerEndpoint = s.peerEndpoint)
    (ho : ∀ d, Event.sent d ∈ s.out → Event.sent d ∈ s'.out) : Traced C s₀ rx T s' := by
  refine ⟨fun q hq => ?_, by rw [he]; exact h.endpoint⟩
  obtain ⟨q', hq', hsame⟩ := hp q hq
  rcases h.probes q' hq' with ⟨q₀, hq₀, hs⟩ | ⟨hreg, hsent⟩
  · exact .inl ⟨q₀, hq₀, hsame.trans hs⟩
  · exact .inr ⟨hsame.2.2.symm.trans hreg, hsent.congr hsame ho⟩

theorem Traced.same (h : Traced C s₀ rx T s) (hp : s'.probes = s.probes)
    (he : s'.peerEndpoint = s.peerEndpoint)
    (ho : ∀ d, Event.sent d ∈ s.out → Event.sent d ∈ s'.out) : Traced C s₀ rx T s' :=
  h.mono (fun q hq => ⟨q, hp ▸ hq, .refl q⟩) he ho

theorem Traced.core (h : Traced C s₀ rx T s) (hc : SameCore s s') :
    Traced C s₀ rx T s' :=
  h.same hc.probes hc.endpoint fun d hd => by
    rw [← mem_sentOf] at hd ⊢
    rwa [hc.sent]

theorem Traced.expire (h : Traced C s₀ rx T s) : Traced C s₀ rx T (expireProbes s T) :=
  h.mono (fun q hq => ⟨q, List.mem_of_mem_filter hq, .refl q⟩) rfl fun _ hd => hd

theorem Traced.spend {dest : Endpoint} {granted : Bool} (h : Traced C s₀ rx T s)
    (hs : Spend C s dest T granted s') : Traced C s₀ rx T s' := by
  obtain ⟨counters, milli, stamp, rfl⟩ := hs.updates
  exact h.same rfl rfl fun _ hd => hd

theorem Traced.sentOne {type : PacketType} {payload : List U8} {dest : Endpoint}
    (h : Traced C s₀ rx T s) (hs : SentOne C E s type payload dest s') :
    Traced C s₀ rx T s' := by
  cases hs
  exact h.same rfl rfl fun _ hd => List.mem_append_left _ hd

theorem Traced.sendPacket (h : Traced C s₀ rx T s) (type : PacketType) (payload : List U8)
    (dest : Endpoint) : Traced C s₀ rx T (sendPacket C E s type payload dest).2 := by
  obtain ⟨counters, calls, hs, -⟩ := sendPacket_spec (C := C) (E := E) s type payload dest
  rw [hs]
  exact h.same rfl rfl fun _ hd => List.mem_append_left _ hd

theorem Traced.startPathProbe (h : Traced C s₀ rx T s) (source : Endpoint) :
    Traced C s₀ rx T (startPathProbe C E s source T) := by
  rcases startPathProbe_cases (C := C) (E := E) s source T with
    hc | ⟨draws, hs⟩ | ⟨draws, k, nonce, u, -, -, -, hs, hsent⟩
  · exact h.expire.core hc
  · have hd : Traced C s₀ rx T { expireProbes s T with draws := draws } :=
      h.expire.same rfl rfl fun _ hd => hd
    exact hd.spend hs
  · have hd : Traced C s₀ rx T { expireProbes s T with draws := draws } :=
      h.expire.same rfl rfl fun _ hd => hd
    have hu := hd.spend hs
    generalize Peer.startPathProbe C E s source T = r at hsent ⊢
    cases hsent
    -- the new entry and its HELLO appear together
    refine ⟨fun q hq => ?_, hu.endpoint⟩
    rcases List.mem_append.mp hq with hold | hnew
    · rcases hu.probes q hold with h₀ | ⟨hreg, hps⟩
      · exact .inl h₀
      · exact .inr ⟨hreg, hps.congr (.refl q) fun _ hd => List.mem_append_left _ hd⟩
    · obtain rfl := List.mem_singleton.mp hnew
      exact .inr ⟨rfl, _, List.mem_append_right _ (List.mem_singleton.mpr rfl), rfl, rfl, rfl⟩

theorem Traced.learn {p : RxPacket} (h : Traced C s₀ rx T s) (hrx : rx = some p)
    (hsource : isVerified C s p.source = true ∨ Answers s₀ p T) :
    Traced C s₀ rx T (learn s p.source) := by
  unfold Peer.learn
  split_ifs with heq
  · exact h
  refine ⟨fun q hq => ?_, .inr ⟨p, hrx, rfl, ?_⟩⟩
  · rcases h.probes q hq with h₀ | ⟨hreg, hps⟩
    · exact .inl h₀
    · exact .inr ⟨hreg, hps.congr (.refl q) fun _ hd => List.mem_append_left _ hd⟩
  · rcases hsource with hv | ha
    · simp only [isVerified, isCandidate, Bool.or_eq_true, decide_eq_true_eq] at hv
      exact .inl (hv.resolve_right heq)
    · exact .inr ha

theorem move_traced (h : Traced C s₀ rx T s) (hm : Move C E s₀ rx T s s') :
    Traced C s₀ rx T s' := by
  cases hm with
  | quiet hc => exact h.core hc
  | expire => exact h.expire
  | helloRound c _ => exact h.sendPacket _ _ _
  | traffic type payload dest _ _ _ => exact h.sendPacket _ _ _
  | record p _ => exact h.same rfl rfl fun _ hd => hd
  | pin p _ =>
    unfold Peer.pin
    split_ifs
    · exact h.same rfl rfl fun _ hd => hd
    · exact h
  | answer i =>
    refine h.mono (fun q hq => ?_) rfl fun _ hd => hd
    obtain ⟨j, hj, rfl⟩ := List.mem_iff_getElem.mp hq
    have hj' : j < s.probes.length := by simpa [markAnswered] using hj
    refine ⟨s.probes[j], List.getElem_mem hj', ?_⟩
    simp only [markAnswered, List.getElem_modify]
    split_ifs <;> exact .refl _
  | learn p hrx hsource => exact h.learn hrx hsource
  | ack p hello _ _ _ =>
    rcases sendHelloAck_cases (C := C) (E := E) s hello.nonce p.source T with
      hs | ⟨u, v, counters, hs, hsent, heq⟩
    · exact h.spend hs
    · rw [heq]
      exact ((h.spend hs).sentOne hsent).same rfl rfl fun _ hd => hd
  | pong p id _ =>
    rcases sendPong_cases (C := C) (E := E) s id p.source T with hs | ⟨u, hs, hsent⟩
    · exact h.spend hs
    · exact (h.spend hs).sentOne hsent
  | confirm p hello _ _ _ _ => exact h.same rfl rfl fun _ hd => hd
  | probe p _ _ _ => exact h.startPathProbe _
  | reset p old _ _ _ => exact h.same rfl rfl fun _ hd => List.mem_append_left _ hd
  | terminate st =>
    exact h.mono (fun q hq => by cases hq) rfl fun _ hd => List.mem_append_left _ hd

theorem moves_traced (h : Moves C E s₀ rx T s₀ s) : Traced C s₀ rx T s := by
  induction h with
  | refl => exact ⟨fun q hq => .inl ⟨q, hq, .refl q⟩, .inl rfl⟩
  | tail _ hm ih => exact move_traced ih hm

/-! ## Runs -/

/-- The call registered a probe for `dest` under `nonce` and sent its HELLO. -/
def RegisteredIn (C : SessionConfig) (e : Entry) (dest : Endpoint) (nonce : Nonce) : Prop :=
  ∃ q ∈ e.after.probes, q.dest = dest ∧ q.nonce = nonce ∧ q.registered = e.now ∧
    ProbeSent C e.after.out q

/-- The call took an answer to the nonce from `source`, under the epoch then pinned, that advanced
the window. -/
def AnsweredIn (e : Entry) (source : Endpoint) (nonce : Nonce) : Prop :=
  ∃ p vip, e.op = .receive p ∧ p.source = source ∧ p.type = some .helloAck ∧
    decodeHello p.payload = .ok ⟨nonce, vip⟩ ∧ e.before.pinned = some p.header.sessionEpoch ∧
    (e.before.window.check p.header.sequence).verdict = .advance

/-- In the run, a probe of `dest` was registered and later answered within its lifetime. -/
def ProbeAnswered (C : SessionConfig) (h : List Entry) (dest : Endpoint) : Prop :=
  ∃ h₁ h₂ e₀ e nonce, h = h₁ ++ e :: h₂ ∧ e₀ ∈ h₁ ∧ RegisteredIn C e₀ dest nonce ∧
    AnsweredIn e dest nonce ∧ e.now < e₀.now + probeTtlMs

structure RunTraced (C : SessionConfig) (h : List Entry) (s : Session) : Prop where
  probes : ∀ q ∈ s.probes, ∃ e ∈ h, RegisteredIn C e q.dest q.nonce ∧ e.now = q.registered
  endpoint : ∀ e, s.peerEndpoint = some e → e ∈ C.candidates ∨ ProbeAnswered C h e
  moves : ∀ e ∈ h, ∀ dest, e.after.peerEndpoint = some dest →
    e.before.peerEndpoint ≠ some dest → dest ∉ C.candidates →
    ∃ p, e.op = .receive p ∧ p.source = dest ∧ p.type = some .helloAck

theorem ProbeAnswered.extend {h : List Entry} {e : Entry} {dest : Endpoint}
    (ha : ProbeAnswered C h dest) : ProbeAnswered C (h ++ [e]) dest := by
  obtain ⟨h₁, h₂, e₀, e', nonce, rfl, hrest⟩ := ha
  exact ⟨h₁, h₂ ++ [e], e₀, e', nonce, by simp, hrest⟩

theorem packet_receive {op : Op} {p : RxPacket} (h : op.packet = some p) : op = .receive p := by
  cases op <;> simp only [Op.packet, Option.some.injEq, reduceCtorEq] at h
  rw [h]

theorem step_preserves_traced {h : List Entry} (hr : RunTraced C h s) {op : Op}
    (ht : Traced C { s with out := [] } op.packet T s') :
    RunTraced C (h ++ [⟨T, op, s, s'⟩]) s' := by
  have answered : ∀ {p}, op.packet = some p → Answers { s with out := [] } p T →
      ProbeAnswered C (h ++ [⟨T, op, s, s'⟩]) p.source := by
    intro p hp ha
    obtain ⟨htype, hepoch, hadv, hello, q, hdec, hq, hn, hdest, htime⟩ := ha
    obtain ⟨e₀, he₀, hreg, hnow⟩ := hr.probes q hq
    refine ⟨h, [], e₀, _, hello.nonce, rfl, he₀, by rwa [← hdest, ← hn], ?_, by rwa [hnow]⟩
    exact ⟨p, hello.virtualIp, packet_receive hp, rfl, htype, hdec, hepoch, hadv⟩
  refine ⟨fun q hq => ?_, fun e he => ?_, fun e he dest hafter hbefore hc => ?_⟩
  · rcases ht.probes q hq with ⟨q₀, hq₀, hsame⟩ | ⟨hreg, hsent⟩
    · obtain ⟨e, he, hin, hnow⟩ := hr.probes q₀ hq₀
      rw [hsame.1, hsame.2.1] at hin
      exact ⟨e, List.mem_append_left _ he, hin, hnow.trans hsame.2.2⟩
    · exact ⟨_, List.mem_append_right _ (List.mem_singleton.mpr rfl),
        ⟨q, hq, rfl, rfl, hreg, hsent⟩, hreg.symm⟩
  · rcases ht.endpoint with hsame | ⟨p, hp, hsome, hc | ha⟩
    · rcases hr.endpoint e (hsame.symm.trans he) with hcand | hans
      · exact .inl hcand
      · exact .inr hans.extend
    · obtain rfl := Option.some.inj (hsome.symm.trans he)
      exact .inl hc
    · obtain rfl := Option.some.inj (hsome.symm.trans he)
      exact .inr (answered hp ha)
  · rcases List.mem_append.mp he with hold | hnew
    · exact hr.moves e hold dest hafter hbefore hc
    · obtain rfl := List.mem_singleton.mp hnew
      rcases ht.endpoint with hsame | ⟨p, hp, hsome, hcand | ha⟩
      · exact absurd (hsame.symm.trans hafter) hbefore
      · obtain rfl := Option.some.inj (hsome.symm.trans hafter)
        exact absurd hcand hc
      · obtain rfl := Option.some.inj (hsome.symm.trans hafter)
        exact ⟨p, packet_receive hp, rfl, ha.type⟩

theorem execution_traced {h : List Entry} {t : Millis} (hx : Execution C E h t s) :
    RunTraced C h s := by
  induction hx with
  | start t =>
    exact ⟨fun q hq => (by cases hq), fun e he => (by cases he), fun e he => (by cases he)⟩
  | call op T hprev _ ih =>
    exact step_preserves_traced ih
      (moves_traced (step_moves (execution_live_or_ended hprev) op))

/-- In every run the endpoint is empty, a candidate, or an address whose probe was answered; and
only a HELLO_ACK from that address ever moves it away from the candidates. -/
theorem endpoint_only_by_probe {h : List Entry} {t : Millis} (hx : Execution C E h t s) :
    (s.peerEndpoint = none ∨ ∃ dest, s.peerEndpoint = some dest ∧
        (dest ∈ C.candidates ∨ ProbeAnswered C h dest)) ∧
      ∀ e ∈ h, ∀ dest, e.after.peerEndpoint = some dest →
        e.before.peerEndpoint ≠ some dest → dest ∉ C.candidates →
        ∃ p, e.op = .receive p ∧ p.source = dest ∧ p.type = some .helloAck := by
  have hr := execution_traced hx
  refine ⟨?_, hr.moves⟩
  cases he : s.peerEndpoint with
  | none => exact .inl rfl
  | some dest => exact .inr ⟨dest, rfl, hr.endpoint dest he⟩

theorem roam_endpoint_by_probe : roamEnd.peerEndpoint = some roamAway ∧
    roamAway ∉ roamConfig.candidates ∧ ProbeAnswered roamConfig roamRun roamAway := by
  have hend : roamEnd.peerEndpoint = some roamAway := by decide +kernel
  have hcand : roamAway ∉ roamConfig.candidates := by decide
  rcases (endpoint_only_by_probe roam_execution).1 with hn | ⟨dest, hs, hc | ha⟩
  · rw [hend] at hn
    cases hn
  · obtain rfl := Option.some.inj (hend.symm.trans hs)
    exact absurd hc hcand
  · obtain rfl := Option.some.inj (hend.symm.trans hs)
    exact ⟨hend, hcand, ha⟩

end Sangtachi.Peer
