import Sangtachi.Peer.Renegotiation

/-! # Deadlines of a session

The next deadline is the least of the timers and of the end of the oldest probe. Polling leaves
every deadline in the future, and before the next deadline it leaves the session alone. -/
namespace Sangtachi.Peer

open Sangtachi.BigEndian Sangtachi.Packet Sangtachi.Replay Sangtachi.InnerIpv4

variable {C : SessionConfig} {E : SessionIo} {s₀ s s' : Session} {T t : Millis}
  {rx : Option RxPacket}

/-! ## The least deadline -/

theorem earlier_some {a b : Option Millis} {d : Millis} (h : earlier a b = some d) :
    a = some d ∨ b = some d := by
  cases a with
  | none => exact .inr h
  | some x =>
    cases b with
    | none => exact .inl h
    | some y =>
      change (if y < x then some y else some x) = some d at h
      by_cases hlt : y < x
      · rw [if_pos hlt] at h
        exact .inr h
      · rw [if_neg hlt] at h
        exact .inl h

theorem foldl_earlier_some {l : List (Option Millis)} {a : Option Millis} {d : Millis}
    (h : l.foldl earlier a = some d) : a = some d ∨ some d ∈ l := by
  induction l generalizing a with
  | nil => exact .inl h
  | cons x rest ih =>
    rcases ih h with h | h
    · rcases earlier_some h with h | h
      · exact .inl h
      · exact .inr (h ▸ List.mem_cons_self)
    · exact .inr (List.mem_cons_of_mem x h)

theorem foldl_earlier_le {l : List (Option Millis)} {a : Option Millis} {d : Millis}
    (h : a = some d ∨ some d ∈ l) :
    ∃ n, l.foldl earlier a = some n ∧ n ≤ d := by
  induction l generalizing a d with
  | nil => exact ⟨d, h.resolve_right List.not_mem_nil, le_rfl⟩
  | cons x rest ih =>
    by_cases hrest : some d ∈ rest
    · exact ih (.inr hrest)
    · have hhere : a = some d ∨ x = some d := by
        apply h.imp_right
        intro hmem
        exact ((List.mem_cons.mp hmem).resolve_right hrest).symm
      obtain ⟨m, hm, hle⟩ := earlier_le hhere
      obtain ⟨n, hn, hle'⟩ := ih (a := earlier a x) (.inl hm)
      exact ⟨n, hn, hle'.trans hle⟩

/-! ## The order of the probes -/

/-- The probes stand in the order of their registration, and none of them in the future. -/
structure Ordered (t : Millis) (s : Session) : Prop where
  sorted : s.probes.Pairwise (fun p q => p.registered ≤ q.registered)
  past : ∀ q ∈ s.probes, q.registered ≤ t

theorem Ordered.same (h : Ordered t s) (hp : s'.probes = s.probes) : Ordered t s' :=
  ⟨hp ▸ h.sorted, hp ▸ h.past⟩

theorem Ordered.later (h : Ordered t s) (ht : t ≤ T) : Ordered T s :=
  ⟨h.sorted, fun q hq => (h.past q hq).trans ht⟩

theorem Ordered.expire (h : Ordered t s) : Ordered t (expireProbes s T) :=
  ⟨h.sorted.sublist List.filter_sublist, fun q hq => h.past q (List.mem_filter.mp hq).1⟩

theorem Ordered.sentOne {type : PacketType} {payload : List U8} {dest : Endpoint} (h : Ordered t s)
    (hs : SentOne C E s type payload dest s') : Ordered t s' := by
  cases hs
  exact ⟨h.sorted, h.past⟩

theorem Ordered.spend {dest : Endpoint} {granted : Bool} (h : Ordered t s)
    (hs : Spend C s dest T granted s') : Ordered t s' := by
  obtain ⟨counters, milli, stamp, rfl⟩ := hs.updates
  exact h.same rfl

theorem Ordered.register (h : Ordered T s) (source : Endpoint) (nonce : Nonce) :
    Ordered T { s with probes := s.probes ++ [⟨source, nonce, T, false⟩] } := by
  constructor
  · apply List.pairwise_append.mpr
    refine ⟨h.sorted, List.pairwise_singleton _ _, ?_⟩
    intro p hp q hq
    rw [List.mem_singleton.mp hq]
    exact h.past p hp
  · intro q hq
    rcases List.mem_append.mp hq with hq | hq
    · exact h.past q hq
    · rw [List.mem_singleton.mp hq]

theorem markAnswered_registered (s : Session) (i : ℕ) :
    (markAnswered s i).probes.map (·.registered) = s.probes.map (·.registered) := by
  apply List.ext_getElem?
  intro j
  simp only [markAnswered, List.getElem?_map, List.getElem?_modify]
  cases s.probes[j]? with
  | none => rfl
  | some q =>
    by_cases hij : i = j
    · simp [hij]
    · simp [hij]

theorem Ordered.answer (h : Ordered t s) (i : ℕ) : Ordered t (markAnswered s i) := by
  have hregistered := markAnswered_registered s i
  constructor
  · have hsorted : (s.probes.map (·.registered)).Pairwise (· ≤ ·) := List.pairwise_map.mpr h.sorted
    rw [← hregistered] at hsorted
    exact List.pairwise_map.mp hsorted
  · intro q hq
    have hmem : q.registered ∈ (markAnswered s i).probes.map (·.registered) :=
      List.mem_map_of_mem hq
    rw [hregistered] at hmem
    obtain ⟨p, hp, heq⟩ := List.mem_map.mp hmem
    rw [← heq]
    exact h.past p hp

theorem move_ordered (h : Ordered T s) (hm : Move C E s₀ rx T s s') : Ordered T s' := by
  cases hm with
  | quiet hc => exact h.same hc.probes
  | expire => exact h.expire
  | helloRound c _ => exact h.same (sendPacket_probes _ _ _)
  | traffic type payload dest _ _ _ => exact h.same (sendPacket_probes _ _ _)
  | record p _ => exact h.same rfl
  | pin p _ =>
    unfold Peer.pin
    split_ifs
    · exact h.same rfl
    · exact h
  | answer i => exact h.answer i
  | learn p _ _ =>
    unfold Peer.learn
    split_ifs
    · exact h
    · exact h.same rfl
  | ack p hello _ _ _ =>
    rcases sendHelloAck_cases (C := C) (E := E) s hello.nonce p.source T with
      hs | ⟨u, v, counters, hs, hsent, heq⟩
    · exact h.spend hs
    · rw [heq]
      exact ((h.spend hs).sentOne hsent).same rfl
  | pong p id _ =>
    rcases sendPong_cases (C := C) (E := E) s id p.source T with hs | ⟨u, hs, hsent⟩
    · exact h.spend hs
    · exact (h.spend hs).sentOne hsent
  | confirm p hello _ _ _ _ => exact h.same rfl
  | probe p _ _ _ =>
    rcases startPathProbe_cases (C := C) (E := E) s p.source T with
      hc | ⟨draws, hs⟩ | ⟨draws, k, nonce, u, -, -, -, hs, hsent⟩
    · exact h.expire.same hc.probes
    · have hdrawn : Ordered T { expireProbes s T with draws := draws } := h.expire.same rfl
      exact hdrawn.spend hs
    · have hdrawn : Ordered T { expireProbes s T with draws := draws } := h.expire.same rfl
      exact ((hdrawn.spend hs).register p.source nonce).sentOne hsent
  | reset p old _ _ _ => exact h.same rfl
  | terminate st => exact ⟨List.Pairwise.nil, by intro q hq; cases hq⟩

theorem moves_ordered (h : Ordered T s) (hm : Moves C E s₀ rx T s s') : Ordered T s' := by
  induction hm with
  | refl => exact h
  | tail _ hlast ih => exact move_ordered ih hlast

/-! ## Sound sessions -/

structure Sound (t : Millis) (s : Session) : Prop where
  control : Live s ∨ ∃ st, Ended s st
  ordered : Ordered t s

theorem create_sound (t : Millis) : Sound t (create t) :=
  ⟨.inl ⟨rfl, rfl, rfl, rfl, rfl, rfl, rfl⟩, List.Pairwise.nil, by intro q hq; cases hq⟩

theorem Sound.later (h : Sound t s) (ht : t ≤ T) : Sound T s := ⟨h.control, h.ordered.later ht⟩

theorem count_control (h : Live s ∨ ∃ st, Ended s st) (c : Counter) :
    Live (s.count c) ∨ ∃ st, Ended (s.count c) st := by
  rcases h with hl | ⟨st, he⟩
  · exact .inl ((count_same c).live hl)
  · exact .inr ⟨st, (count_same c).ended rfl he⟩

theorem step_control (h : Live s ∨ ∃ st, Ended s st) (op : Op) :
    Live (step C E s op T) ∨ ∃ st, Ended (step C E s op T) st := by
  rcases h with hl | ⟨st, he⟩
  · rcases step_live (C := C) (E := E) (T := T) hl op with
      ⟨hl', -⟩ | ⟨-, hfailed⟩ | ⟨-, hended, -⟩ | ⟨-, hended, -⟩
    · exact .inl hl'
    · exact .inr ⟨_, hfailed.ended⟩
    · exact .inr ⟨_, hended⟩
    · exact .inr ⟨_, hended⟩
  · exact .inr ⟨st, (step_ended he op).1⟩

theorem Sound.count (h : Sound t s) (c : Counter) : Sound t (s.count c) :=
  ⟨count_control h.control c, h.ordered.same rfl⟩

theorem step_sound (h : Sound t s) (ht : t ≤ T) (op : Op) : Sound T (step C E s op T) := by
  constructor
  · exact step_control h.control op
  · have hclear : Ordered T { s with out := [] } := (h.ordered.later ht).same rfl
    exact moves_ordered hclear (step_moves h.control op)

/-! ## After polling -/

/-- Every deadline of the session lies in the future. -/
structure Ahead (s : Session) (T : Millis) : Prop where
  hello : ∀ d, s.hello.due = some d → T < d
  punch : ∀ d, s.punch.due = some d → T < d
  keepalive : ∀ d, s.keepalive.due = some d → T < d
  ping : ∀ d, s.ping.due = some d → T < d
  idle : ∀ d, s.idle.due = some d → T < d
  probes : ∀ q ∈ s.probes, T < timeAfter q.registered probeTtlMs

theorem Ahead.next (h : Ahead s T) {d : Millis} (hd : nextDeadline s = some d) : T < d := by
  rcases earlier_some hd with hd | hd
  · have hmem := (foldl_earlier_some hd).resolve_left nofun
    simp only [List.mem_cons, List.not_mem_nil, or_false] at hmem
    rcases hmem with hd | hd | hd | hd | hd
    · exact h.hello d hd.symm
    · exact h.punch d hd.symm
    · exact h.keepalive d hd.symm
    · exact h.ping d hd.symm
    · exact h.idle d hd.symm
  · obtain ⟨q, hq, rfl⟩ := Option.map_eq_some_iff.mp hd
    exact h.probes q (List.mem_of_mem_head? hq)

theorem ahead_of_next (h : Ordered t s) (hfits : t + probeTtlMs < 2 ^ 64)
    (hnext : ∀ d, nextDeadline s = some d → T < d) : Ahead s T := by
  have hreported : ∀ {d : Millis},
    some d ∈ [s.hello.due, s.punch.due, s.keepalive.due, s.ping.due, s.idle.due] →
      T < d := by
    intro d hd
    obtain ⟨m, hm, hmd⟩ := foldl_earlier_le (a := none) (.inr hd)
    obtain ⟨n, hn, hnm⟩ :=
      earlier_le (b := s.probes.head?.map (timeAfter ·.registered probeTtlMs)) (.inl hm)
    exact (hnext n hn).trans_le (hnm.trans hmd)
  constructor
  · intro d hd
    exact hreported (by simp [hd])
  · intro d hd
    exact hreported (by simp [hd])
  · intro d hd
    exact hreported (by simp [hd])
  · intro d hd
    exact hreported (by simp [hd])
  · intro d hd
    exact hreported (by simp [hd])
  · intro q hq
    cases hprobes : s.probes with
    | nil =>
      rw [hprobes] at hq
      cases hq
    | cons p rest =>
      have hlast := h.past q hq
      have hfirst : p.registered ≤ q.registered := by
        rw [hprobes] at hq
        rcases List.mem_cons.mp hq with rfl | hq
        · exact le_rfl
        · have hsorted := h.sorted
          rw [hprobes] at hsorted
          exact (List.pairwise_cons.mp hsorted).1 q hq
      have hhead : s.probes.head?.map (timeAfter ·.registered probeTtlMs) =
        some (timeAfter p.registered probeTtlMs) := by
        rw [hprobes]
        rfl
      obtain ⟨n, hn, hle⟩ :=
        earlier_le (a := [s.hello.due, s.punch.due, s.keepalive.due, s.ping.due,
        s.idle.due].foldl earlier none) (.inr hhead)
      have hkept : timeAfter q.registered probeTtlMs = q.registered + probeTtlMs :=
        timeAfter_of_fits ((Nat.add_le_add_right hlast _).trans_lt hfits)
      rw [hkept]
      exact (hnext n hn).trans_le
        (hle.trans ((timeAfter_le _ _).trans (Nat.add_le_add_right hfirst _)))

theorem Ended.ahead {st : SessionState} (h : Ended s st) : Ahead s T := by
  have hnone : s.hello.due = none ∧ s.punch.due = none ∧ s.keepalive.due = none ∧
    s.ping.due = none ∧
      s.idle.due = none := by
    have htimers := h.timers
    rcases h.isTerminal with rfl | rfl
    · exact htimers
    · exact htimers
  obtain ⟨hhello, hpunch, hkeepalive, hping, hidle⟩ := hnone
  constructor
  · simp [hhello]
  · simp [hpunch]
  · simp [hkeepalive]
  · simp [hping]
  · simp [hidle]
  · rw [h.probes]
    intro q hq
    cases hq

theorem not_isDue {timer : Timer} : timer.isDue T = false ↔ ∀ d, timer.due = some d → T < d := by
  unfold Timer.isDue
  cases timer.due with
  | none => simp
  | some d => simp

theorem arm_not_isDue (hfits : T + keepaliveIntervalMs < 2 ^ 64) (interval : Millis)
    (hpos : 0 < interval) (hle : interval ≤ keepaliveIntervalMs) :
    (arm T interval).isDue T = false := by
  rw [not_isDue]
  intro d hd
  rw [← Option.some.inj hd]
  exact lt_timeAfter hpos ((Nat.add_le_add_left hle T).trans_lt hfits)

theorem expireProbes_ahead (q : ProbePath) (hq : q ∈ (expireProbes s T).probes) :
    T < timeAfter q.registered probeTtlMs := by
  have hlive := (List.mem_filter.mp hq).2
  simpa [ProbePath.expired] using hlive

structure SameTimers (s s' : Session) : Prop where
  hello : s'.hello = s.hello
  punch : s'.punch = s.punch
  keepalive : s'.keepalive = s.keepalive
  ping : s'.ping = s.ping
  idle : s'.idle = s.idle
  probes : s'.probes = s.probes

theorem sendEach_timers {type : PacketType} (ht : type ≠ .close) (payload : List U8)
    (dests : List Endpoint) :
    SameTimers s (sendEach C E s type payload dests) := by
  have h := sendEach_same (C := C) (E := E) (s := s) ht payload dests
  exact ⟨h.hello, h.punch, h.keepalive, h.ping, h.idle, sendEach_probes _ _ _⟩

theorem sendToPeer_timers {type : PacketType} (ht : type ≠ .close) (payload : List U8) :
    SameTimers s (sendToPeer C E s type payload) := by
  have h := sendToPeer_same (C := C) (E := E) (s := s) ht payload
  exact ⟨h.hello, h.punch, h.keepalive, h.ping, h.idle, sendToPeer_probes _ _⟩

theorem Ahead.same (h : Ahead s T) (hs : SameTimers s s') : Ahead s' T where
  hello := hs.hello ▸ h.hello
  punch := hs.punch ▸ h.punch
  keepalive := hs.keepalive ▸ h.keepalive
  ping := hs.ping ▸ h.ping
  idle := hs.idle ▸ h.idle
  probes := hs.probes ▸ h.probes

theorem sendPing_probes : (sendPing C E s T).probes = s.probes := by
  unfold sendPing
  dsimp only
  by_cases hfull : maxPendingPings ≤
    (expirePings { s with ping := arm T pingIntervalMs } T).pendingPings.length
  · rw [if_pos hfull]
    rfl
  · rw [if_neg hfull, sendToPeer_probes]
    unfold readRttClock
    cases E.rttClockUs with
    | none => rfl
    | some clock => rfl

/-! ### The parts of a poll: each touches its own timer -/

theorem pollHello_timers :
    SameTimers { s with hello := (pollHello C E s T).hello } (pollHello C E s T) := by
  unfold pollHello
  by_cases hdue : s.hello.isDue T = true
  · rw [if_pos hdue]
    have h :
      SameTimers (emitTick s .hello s.hello T) (sendHelloRound C E (emitTick s .hello s.hello T)) :=
      sendEach_timers (by decide) _ _
    exact ⟨rfl, h.punch, h.keepalive, h.ping, h.idle, h.probes⟩
  · rw [if_neg hdue]
    exact ⟨rfl, rfl, rfl, rfl, rfl, rfl⟩

theorem pollKeepalive_timers :
    SameTimers { s with keepalive := (pollKeepalive C E s T).keepalive }
    (pollKeepalive C E s T) := by
  unfold pollKeepalive
  by_cases hdue : s.keepalive.isDue T = true
  · rw [if_pos hdue]
    have h : SameTimers (emitTick s .keepalive s.keepalive T)
        (sendToPeer C E (emitTick s .keepalive s.keepalive T) .keepalive []) := sendToPeer_timers
          (by decide) _
    exact ⟨h.hello, h.punch, rfl, h.ping, h.idle, h.probes⟩
  · rw [if_neg hdue]
    exact ⟨rfl, rfl, rfl, rfl, rfl, rfl⟩

theorem pollPing_timers :
    SameTimers { s with ping := (pollPing C E s T).ping } (pollPing C E s T) := by
  unfold pollPing
  by_cases hdue : s.ping.isDue T = true
  · rw [if_pos hdue]
    have h := sendPing_same (C := C) (E := E) (s := emitTick s .ping s.ping T) (T := T)
    have hprobes := sendPing_probes (C := C) (E := E) (s := emitTick s .ping s.ping T) (T := T)
    exact ⟨h.hello, h.punch, h.keepalive, rfl, h.idle, hprobes⟩
  · rw [if_neg hdue]
    exact ⟨rfl, rfl, rfl, rfl, rfl, rfl⟩

/-! ### Each timer is not due, or started anew -/

theorem pollHello_served (hfits : T + keepaliveIntervalMs < 2 ^ 64) :
    (pollHello C E s T).hello.isDue T = false := by
  unfold pollHello
  by_cases hdue : s.hello.isDue T = true
  · rw [if_pos hdue]
    exact arm_not_isDue hfits _ (by decide) (by decide)
  · rw [if_neg hdue]
    simpa using hdue

theorem pollKeepalive_served (hfits : T + keepaliveIntervalMs < 2 ^ 64) :
    (pollKeepalive C E s T).keepalive.isDue T = false := by
  unfold pollKeepalive
  by_cases hdue : s.keepalive.isDue T = true
  · rw [if_pos hdue]
    exact arm_not_isDue hfits _ (by decide) (by decide)
  · rw [if_neg hdue]
    simpa using hdue

theorem pollPing_served (hfits : T + keepaliveIntervalMs < 2 ^ 64) :
    (pollPing C E s T).ping.isDue T = false := by
  unfold pollPing
  by_cases hdue : s.ping.isDue T = true
  · rw [if_pos hdue, sendPing_same.ping]
    exact arm_not_isDue hfits _ (by decide) (by decide)
  · rw [if_neg hdue]
    simpa using hdue

theorem enterTerminal_ahead (st : SessionState) : Ahead (enterTerminal s st T) T := by
  constructor
  · intro d hd
    cases hd
  · intro d hd
    cases hd
  · intro d hd
    cases hd
  · intro d hd
    cases hd
  · intro d hd
    cases hd
  · intro q hq
    cases hq

theorem poll_ahead (h : Sound t s) (hfits : T + keepaliveIntervalMs < 2 ^ 64) :
    Ahead (poll C E s T) T := by
  unfold poll
  by_cases hactive : s.active = true
  · rw [if_neg (by simp [hactive])]
    dsimp only
    by_cases hpunch : (expireProbes s T).punch.isDue T = true
    · rw [if_pos hpunch]
      exact enterTerminal_ahead _
    · rw [if_neg hpunch]
      by_cases hidle : (expireProbes s T).idle.isDue T = true
      · rw [if_pos hidle]
        exact enterTerminal_ahead _
      · rw [if_neg hidle]
        have hhello := pollHello_served (C := C) (E := E) (s := expireProbes s T) hfits
        have h₁ := pollHello_timers (C := C) (E := E) (s := expireProbes s T) (T := T)
        generalize pollHello C E (expireProbes s T) T = u at hhello h₁
        have hkeepalive := pollKeepalive_served (C := C) (E := E) (s := u) hfits
        have h₂ := pollKeepalive_timers (C := C) (E := E) (s := u) (T := T)
        generalize pollKeepalive C E u T = v at hkeepalive h₂
        have hping := pollPing_served (C := C) (E := E) (s := v) hfits
        have h₃ := pollPing_timers (C := C) (E := E) (s := v) (T := T)
        generalize pollPing C E v T = w at hping h₃
        constructor
        · rw [h₃.hello, h₂.hello]
          exact not_isDue.mp hhello
        · rw [h₃.punch, h₂.punch, h₁.punch]
          exact not_isDue.mp (by simpa using hpunch)
        · rw [h₃.keepalive]
          exact not_isDue.mp hkeepalive
        · exact not_isDue.mp hping
        · rw [h₃.idle, h₂.idle, h₁.idle]
          exact not_isDue.mp (by simpa using hidle)
        · rw [h₃.probes, h₂.probes, h₁.probes]
          exact expireProbes_ahead
  · rw [if_pos (by simpa using hactive)]
    rcases h.control with hl | ⟨st, he⟩
    · exact absurd (active_of_live hl.terminal) hactive
    · exact he.ahead

theorem poll_idle (h : Ahead s T) : poll C E s T = s := by
  have hprobes : s.probes.filter (fun q => !q.expired T) = s.probes := by
    apply List.filter_eq_self.mpr
    intro q hq
    simpa [ProbePath.expired] using h.probes q hq
  have hfailed : s.probes.countP (fun q => q.expired T && !q.answered) = 0 := by
    apply List.countP_eq_zero.mpr
    intro q hq
    have hq' := h.probes q hq
    simp only [ProbePath.expired, Bool.and_eq_true, decide_eq_true_eq, not_and]
    intro hexpired
    exact absurd hexpired (not_le.mpr hq')
  have hexpire : expireProbes s T = s := by
    unfold expireProbes
    dsimp only
    rw [hprobes, hfailed, Nat.add_zero, Function.update_eq_self]
  have hpunch : s.punch.isDue T = false := not_isDue.mpr h.punch
  have hidle : s.idle.isDue T = false := not_isDue.mpr h.idle
  have hhello : s.hello.isDue T = false := not_isDue.mpr h.hello
  have hkeepalive : s.keepalive.isDue T = false := not_isDue.mpr h.keepalive
  have hping : s.ping.isDue T = false := not_isDue.mpr h.ping
  unfold poll
  by_cases hactive : s.active = true
  · rw [if_neg (by simp [hactive])]
    simp [hexpire, hpunch, hidle, pollHello, hhello, pollKeepalive, hkeepalive, pollPing, hping]
  · rw [if_pos (by simpa using hactive)]

theorem step_poll_ahead (h : Sound t s) (ht : t ≤ T) (hfits : T + keepaliveIntervalMs < 2 ^ 64) :
    Ahead (step C E s .poll T) T := by
  have hclear : Sound T { s with out := [] } := by
    refine ⟨?_, (h.ordered.later ht).same rfl⟩
    rcases h.control with hl | ⟨st, he⟩
    · exact .inl ⟨hl.terminal, hl.failure, hl.timers⟩
    · exact .inr ⟨st, he.terminal, he.isTerminal, he.timers, he.probes, he.failure⟩
  exact poll_ahead hclear hfits

theorem step_poll_idle (h : Ahead s T) : step C E s .poll T = { s with out := [] } :=
  poll_idle (s := { s with out := [] }) (h.same ⟨rfl, rfl, rfl, rfl, rfl, rfl⟩)

theorem step_roster_ahead (h : Ahead s T) (payload : List U8) :
    Ahead (step C E s (.sendRoster payload) T) T := by
  have hclear : Ahead { s with out := [] } T := h.same ⟨rfl, rfl, rfl, rfl, rfl, rfl⟩
  exact hclear.same (sendToPeer_timers (by decide) payload)

end Sangtachi.Peer
