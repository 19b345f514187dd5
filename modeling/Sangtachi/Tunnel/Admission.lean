import Sangtachi.Tunnel.Classify
import Sangtachi.Tunnel.Sessions
import Sangtachi.Peer.Deadlines
import Sangtachi.Peer.Redirect

/-! # Addresses that are sent to

An address comes in as a candidate of a response or as the source of a datagram, and is looked at
there, under the own subnets of that moment. A session sends to no other address. -/
namespace Sangtachi.Peer

open Sangtachi.BigEndian Sangtachi.Packet Sangtachi.Replay Sangtachi.InnerIpv4

variable {C : SessionConfig} {E : SessionIo} {s₀ s s' : Session} {T : Millis} {rx : Option RxPacket}
  {A : Endpoint → Prop}

/-! ## One session -/

/-- The learned endpoint and the destinations so far are addresses that `A` admits. -/
structure Addressed (A : Endpoint → Prop) (s : Session) : Prop where
  endpoint : ∀ e, s.peerEndpoint = some e → A e
  sent : ∀ d ∈ sentOf s.out, A d.dest

theorem Addressed.same (h : Addressed A s) (he : s'.peerEndpoint = s.peerEndpoint)
    (ho : sentOf s'.out = sentOf s.out) :
    Addressed A s' := ⟨he ▸ h.endpoint, ho ▸ h.sent⟩

theorem Addressed.sendPacket {dest : Endpoint} (h : Addressed A s) (hd : A dest) (type : PacketType)
    (payload : List U8) :
    Addressed A (sendPacket C E s type payload dest).2 := by
  obtain ⟨counters, calls, hs, hcalls⟩ := sendPacket_spec (C := C) (E := E) s type payload dest
  rw [hs]
  refine ⟨h.endpoint, ?_⟩
  intro d hmem
  rcases List.mem_append.mp ((sentOf_append s.out calls) ▸ hmem) with hmem | hmem
  · exact h.sent d hmem
  · rcases hcalls with ⟨rfl, -⟩ | ⟨bytes, -, rfl, -⟩
    · cases hmem
    · rw [List.mem_singleton.mp hmem]
      exact hd

theorem Addressed.spend {dest : Endpoint} {granted : Bool} (h : Addressed A s)
    (hs : Spend C s dest T granted s') :
    Addressed A s' := by
  obtain ⟨counters, milli, stamp, rfl⟩ := hs.updates
  exact h.same rfl rfl

theorem Addressed.sentOne {type : PacketType} {payload : List U8} {dest : Endpoint}
    (h : Addressed A s) (hd : A dest) (hs : SentOne C E s type payload dest s') :
    Addressed A s' := by
  cases hs
  refine ⟨h.endpoint, ?_⟩
  intro d hmem
  rcases List.mem_append.mp ((sentOf_append s.out _) ▸ hmem) with hmem | hmem
  · exact h.sent d hmem
  · rw [List.mem_singleton.mp hmem]
    exact hd

theorem Addressed.verified {dest : Endpoint} (h : Addressed A s) (hc : ∀ c ∈ C.candidates, A c)
    (hv : isVerified C s dest = true) : A dest := by
  unfold isVerified isCandidate at hv
  rw [Bool.or_eq_true, decide_eq_true_eq, decide_eq_true_eq] at hv
  rcases hv with hv | hv
  · exact hc dest hv
  · exact h.endpoint dest hv

theorem move_addressed (hc : ∀ c ∈ C.candidates, A c) (hrx : ∀ p, rx = some p → A p.source)
    (h : Addressed A s) (hm : Move C E s₀ rx T s s') :
    Addressed A s' := by
  cases hm with
  | quiet hcore => exact h.same hcore.endpoint hcore.sent
  | expire => exact h.same rfl rfl
  | helloRound c hmem => exact h.sendPacket (hc c hmem) _ _
  | traffic type payload dest _ _ hv => exact h.sendPacket (h.verified hc hv) _ _
  | record p _ => exact h.same rfl rfl
  | pin p _ =>
    unfold Peer.pin
    split_ifs
    · exact h.same rfl rfl
    · exact h
  | answer i => exact h.same rfl rfl
  | learn p hp _ =>
    unfold Peer.learn
    split_ifs
    · exact h
    · have hout : sentOf (s.out ++ [.line (.endpoint p.source)]) = sentOf s.out :=
        (sentOf_append _ _).trans (List.append_nil _)
      refine ⟨?_, ?_⟩
      · intro e he
        rw [← Option.some.inj he]
        exact hrx p hp
      · intro d hd
        exact h.sent d (hout ▸ hd)
  | ack p hello hp _ _ =>
    rcases sendHelloAck_cases (C := C) (E := E) s hello.nonce p.source T with
      hs | ⟨u, v, counters, hs, hsent, heq⟩
    · exact h.spend hs
    · rw [heq]
      exact ((h.spend hs).sentOne (hrx p hp) hsent).same rfl rfl
  | pong p id hp =>
    rcases sendPong_cases (C := C) (E := E) s id p.source T with hs | ⟨u, hs, hsent⟩
    · exact h.spend hs
    · exact (h.spend hs).sentOne (hrx p hp) hsent
  | confirm p hello _ _ _ _ => exact h.same rfl rfl
  | probe p hp _ _ =>
    have hexpired : Addressed A (expireProbes s T) := h.same rfl rfl
    rcases startPathProbe_cases (C := C) (E := E) s p.source T with
      hcore | ⟨draws, hs⟩ | ⟨draws, k, nonce, u, -, -, -, hs, hsent⟩
    · exact hexpired.same hcore.endpoint hcore.sent
    · have hdrawn : Addressed A { expireProbes s T with draws := draws } := hexpired.same rfl rfl
      exact hdrawn.spend hs
    · have hdrawn : Addressed A { expireProbes s T with draws := draws } := hexpired.same rfl rfl
      have hregistered :
        Addressed A { u with probes := u.probes ++ [⟨p.source, nonce, T, false⟩] } :=
        (hdrawn.spend hs).same rfl rfl
      exact hregistered.sentOne (hrx p hp) hsent
  | reset p old _ _ _ =>
    refine h.same rfl ((sentOf_append _ _).trans ?_)
    cases s.pinned <;> exact List.append_nil _
  | terminate st =>
    refine h.same rfl ?_
    exact (sentOf_append _ _).trans (List.append_nil _)

/-- A call sends to the candidates, to the learned endpoint and back to the source of its packet. -/
theorem step_addressed {op : Op} (hcontrol : Live s ∨ ∃ st, Ended s st)
    (hc : ∀ c ∈ C.candidates, A c) (hrx : ∀ p, op = .receive p → A p.source)
    (he : ∀ e, s.peerEndpoint = some e → A e) :
    Addressed A (step C E s op T) := by
  have hmoves := step_moves (C := C) (E := E) (T := T) hcontrol op
  have hstart : Addressed A { s with out := [] } := by
    refine ⟨he, ?_⟩
    intro d hd
    cases hd
  generalize step C E s op T = s' at hmoves ⊢
  induction hmoves with
  | refl => exact hstart
  | tail _ hlast ih => exact move_addressed hc (fun p hp => hrx p (packet_receive hp)) ih hlast

end Sangtachi.Peer

namespace Sangtachi.Tunnel

open Sangtachi.BigEndian Sangtachi.Packet Sangtachi.Peer
open Sangtachi.Lobby (OwnSubnet blocksBroadcast sanitizeReceivedCandidates)

variable {io : SessionId → SessionIo} {T : Tunnel} {now t : Millis} {own : List OwnSubnet}
  {e : Endpoint}

/-! ## Where addresses come in -/

/-- What happens to the process as far as addresses go: the own subnets are collected anew, a
response is interpreted that lists the candidates of a ready peer, or the tunnel is called. -/
inductive Happening where
  | collected (own : List OwnSubnet)
  | interpreted (received : List Lobby.Candidate)
  | called (a : Action) (now : Millis)

/-- `own` is in force when it happens; `after` is the tunnel after it. -/
structure Moment where
  own : List OwnSubnet
  what : Happening
  after : Tunnel

/-- A session is opened for candidates of interpreted responses, and the tunnel gets only datagrams
that are classified as its own. -/
def Guarded (h : List Moment) (own : List OwnSubnet) : Action → Prop
  | .createSession request _ _ =>
    ∀ e ∈ request.candidates, ∃ x ∈ h, ∃ received c, x.what = .interpreted received ∧
      c ∈ sanitizeReceivedCandidates received x.own ∧ c.endpoint = e
  | .onDatagram source datagram => classifyDatagram source datagram own = .tunnelCandidate
  | _ => True

/-- A run of the process from its start. Before the first collection there are no own subnets. -/
inductive GuardedRun (io : SessionId → SessionIo) : List Moment → Millis → Tunnel →
    List OwnSubnet → Prop where
  | start (t : Millis) : GuardedRun io [] t {} []
  | collected {h t T own} (own' : List OwnSubnet) : GuardedRun io h t T own →
      GuardedRun io (h ++ [⟨own, .collected own', T⟩]) t T own'
  | interpreted {h t T own} (received : List Lobby.Candidate) : GuardedRun io h t T own →
      GuardedRun io (h ++ [⟨own, .interpreted received, T⟩]) t T own
  | called {h t T own} (a : Action) (now : Millis) : GuardedRun io h t T own → t ≤ now →
    Guarded h own a →
      GuardedRun io (h ++ [⟨own, .called a now, T.perform io a now⟩]) now (T.perform io a now) own

/-- The address was let in at that moment: as a candidate, or as the source of a datagram. -/
inductive Admits (x : Moment) (e : Endpoint) : Prop where
  | candidate (received : List Lobby.Candidate) (c : Lobby.Candidate) : x.what =
    .interpreted received →
      c ∈ sanitizeReceivedCandidates received x.own → c.endpoint = e → Admits x e
  | source (datagram : List U8) (now : Millis) : x.what = .called (.onDatagram e datagram) now →
      classifyDatagram e datagram x.own = .tunnelCandidate → Admits x e

theorem Admits.direct {x : Moment} (h : Admits x e) : Direct x.own e := by
  cases h with
  | candidate received c _ hc heq => exact heq ▸ direct_of_received hc
  | source datagram now _ hclass => exact direct_of_tunnelCandidate hclass

def Admitted (h : List Moment) (e : Endpoint) : Prop := ∃ x ∈ h, Admits x e

theorem Admitted.mono {h h' : List Moment} (hsub : ∀ x ∈ h, x ∈ h') (ha : Admitted h e) :
    Admitted h' e := by
  obtain ⟨x, hx, hadmits⟩ := ha
  exact ⟨x, hsub x hx, hadmits⟩

/-! ## Runs -/

theorem GuardedRun.run {h : List Moment} (hr : GuardedRun io h t T own) :
    ∃ turns, Run io turns t T := by
  induction hr with
  | start t => exact ⟨[], .start t⟩
  | collected own' _ ih => exact ih
  | interpreted received _ ih => exact ih
  | called a now _ ht _ ih =>
    obtain ⟨turns, hturns⟩ := ih
    exact ⟨_, .turn a now hturns ht⟩

/-- The addresses a session may send to were let in. -/
structure Sourced (h : List Moment) (x : Entry) : Prop where
  control : Live x.session ∨ ∃ st, Ended x.session st
  candidates : ∀ c ∈ x.cfg.candidates, Admitted h c
  endpoint : ∀ e, x.session.peerEndpoint = some e → Admitted h e

theorem Sourced.mono {h h' : List Moment} {x : Entry} (hsub : ∀ y ∈ h, y ∈ h') (hx : Sourced h x) :
    Sourced h' x :=
  ⟨hx.control, fun c hc => (hx.candidates c hc).mono hsub, fun e he => (hx.endpoint e he).mono hsub⟩

theorem sourced_rule {h : List Moment} {a : Action} (hguard : Guarded h own a) (after : Tunnel) :
    SessionRule io now a (Sourced (h ++ [⟨own, .called a now, after⟩]))
      (fun x => ∀ d, x.2 = .sent d → Admitted (h ++ [⟨own, .called a now, after⟩]) d.dest) where
  called := by
    intro x op hx hask
    have hrx : ∀ p, op = .receive p → Admitted (h ++ [⟨own, .called a now, after⟩]) p.source := by
      rintro p rfl
      obtain ⟨-, datagram, rfl, -⟩ := hask
      exact ⟨_, List.mem_append_right _ (List.mem_singleton_self _),
        .source datagram now rfl hguard⟩
    have hstep :=
      step_addressed (C := x.cfg) (E := io x.id) (T := now) hx.control hx.candidates hrx hx.endpoint
    constructor
    · exact ⟨step_control hx.control op, hx.candidates, hstep.endpoint⟩
    · intro y hy d hd
      have hy' : Event.sent d ∈ (step x.cfg (io x.id) x.session op now).out := hd ▸ hy
      exact hstep.sent d (mem_sentOf.mpr hy')
  counted := by
    intro x c hx
    exact ⟨count_control hx.control c, hx.candidates, hx.endpoint⟩
  registered := by
    intro x hx
    exact ⟨hx.control, hx.candidates, hx.endpoint⟩
  created := by
    rintro T request epoch nonce ⟨epochDraws, nonceDraws, rfl⟩
    refine ⟨(create_sound now).control, ?_, ?_⟩
    · intro c hc
      obtain ⟨x, hx, received, candidate, hwhat, hmem, heq⟩ := hguard c hc
      exact ⟨x, List.mem_append_left _ hx, .candidate received candidate hwhat hmem heq⟩
    · intro e he
      cases he

theorem GuardedRun.sourced {h : List Moment} (hr : GuardedRun io h t T own) :
    (∀ x ∈ T.sessions, Sourced h x) ∧
    ∀ i x, h[i]? = some x → ∀ a now, x.what = .called a now → ∀ id d, (id, .sent d) ∈ x.after.out →
      Admitted (h.take (i + 1)) d.dest := by
  have hquiet : ∀ {h : List Moment} {y : Moment}, (∀ a now, y.what ≠ .called a now) →
      (∀ i x, h[i]? = some x → ∀ a now, x.what = .called a now →
        ∀ id d, (id, Event.sent d) ∈ x.after.out →
        Admitted (h.take (i + 1)) d.dest) →
      ∀ i x, (h ++ [y])[i]? = some x → ∀ a now, x.what = .called a now →
        ∀ id d, (id, Event.sent d) ∈ x.after.out →
        Admitted ((h ++ [y]).take (i + 1)) d.dest := by
    intro h y hnot hold i x hi a now hwhat id d hd
    by_cases hlt : i < h.length
    · rw [List.getElem?_append_left hlt] at hi
      rw [List.take_append_of_le_length hlt]
      exact hold i x hi a now hwhat id d hd
    · obtain ⟨-, rfl⟩ : i = h.length ∧ y = x := by
        rw [List.getElem?_append_right (not_lt.mp hlt)] at hi
        cases hdiff : i - h.length with
        | zero =>
          rw [hdiff] at hi
          exact ⟨by omega, Option.some.inj hi⟩
        | succ k =>
          rw [hdiff] at hi
          cases hi
      exact absurd hwhat (hnot a now)
  induction hr with
  | start t =>
    constructor
    · intro x hx
      cases hx
    · intro i x hi
      cases hi
  | collected own' _ ih =>
    obtain ⟨hentries, hsent⟩ := ih
    refine ⟨fun x hx => (hentries x hx).mono fun y hy => List.mem_append_left _ hy, hquiet ?_ hsent⟩
    intro a now heq
    cases heq
  | interpreted received _ ih =>
    obtain ⟨hentries, hsent⟩ := ih
    refine ⟨fun x hx => (hentries x hx).mono fun y hy => List.mem_append_left _ hy, hquiet ?_ hsent⟩
    intro a now heq
    cases heq
  | @called h t T own a now hprev ht hguard ih =>
    obtain ⟨hentries, hsent⟩ := ih
    obtain ⟨turns, hturns⟩ := hprev.run
    have hrule := @sourced_rule io now own h a hguard (T.perform io a now)
    have hholds := hrule.perform (run_invariant hturns) (written_rule.run_roster hturns)
      fun x hx => (hentries x hx).mono fun y hy => List.mem_append_left _ hy
    refine ⟨hholds.entries, ?_⟩
    intro i x hi a' now' hwhat id d hd
    by_cases hlt : i < h.length
    · rw [List.getElem?_append_left hlt] at hi
      rw [List.take_append_of_le_length hlt]
      exact hsent i x hi a' now' hwhat id d hd
    · rw [List.take_of_length_le (by simp; omega)]
      rw [List.getElem?_append_right (not_lt.mp hlt)] at hi
      have hx : (⟨own, .called a now, T.perform io a now⟩ : Moment) = x :=
        List.mem_singleton.mp (List.mem_of_getElem? hi) |>.symm
      subst hx
      exact hholds.reports _ hd d rfl

/-- No session sends to an address that reflects. Every destination was let in at a moment not after
the call that sends there, and under the own subnets of that moment an answer to it reaches one
computer at most. -/
theorem destinations_do_not_reflect {h : List Moment} (hr : GuardedRun io h t T own) :
    ∀ i x, h[i]? = some x → ∀ a now, x.what = .called a now → ∀ id d, (id, .sent d) ∈ x.after.out →
      ∃ y ∈ h.take (i + 1), Admits y d.dest ∧ d.dest.port ≠ 0 ∧
        d.dest.address &&& multicastMask ≠ multicastNetwork ∧
        d.dest.address ≠ limitedBroadcast ∧ d.dest.address ≠ unspecified ∧
        (isLoopback d.dest.address = false → blocksBroadcast y.own d.dest.address = false) := by
  intro i x hi a now hwhat id d hd
  obtain ⟨y, hy, hadmits⟩ := hr.sourced.2 i x hi a now hwhat id d hd
  have hdirect := hadmits.direct
  exact ⟨y, hy, hadmits, hdirect.port, hdirect.multicast, hdirect.broadcast, hdirect.specified,
    hdirect.subnet⟩

/-- The network of a home, whose broadcast address a response lists as a candidate. -/
def homeSubnet : OwnSubnet := ⟨0xC0A80001, 24, by decide⟩

def homeReply : List Lobby.Candidate := [⟨⟨0xC0A800FF, 5000⟩, .local⟩, ⟨roamHome, .local⟩]

def homeOpened : Tunnel :=
  ({} : Tunnel).perform roomIo (.createSession (roomRequest 2 0x0A640002) [7] [nonceOf 1]) 0
def homePunched : Tunnel := homeOpened.perform roomIo (.startPunch 2) 0

def homeRun : List Moment :=
  [⟨[], .collected [homeSubnet], {}⟩, ⟨[homeSubnet], .interpreted homeReply, {}⟩,
   ⟨[homeSubnet],
     .called (.createSession (roomRequest 2 0x0A640002) [7] [nonceOf 1]) 0, homeOpened⟩,
   ⟨[homeSubnet], .called (.startPunch 2) 0, homePunched⟩]

theorem home_run : GuardedRun roomIo homeRun 0 homePunched [homeSubnet] := by
  have hreply : GuardedRun roomIo (homeRun.take 2) 0 {} [homeSubnet] :=
    .interpreted homeReply (.collected [homeSubnet] (.start 0))
  have hguard : Guarded (homeRun.take 2) [homeSubnet]
    (.createSession (roomRequest 2 0x0A640002) [7] [nonceOf 1]) := by
    intro e he
    rw [List.mem_singleton.mp he]
    exact ⟨_, List.mem_cons_of_mem _ (List.mem_singleton_self _), homeReply, ⟨roamHome, .local⟩,
      rfl, by decide, rfl⟩
  exact .called (.startPunch 2) 0 (.called _ 0 hreply le_rfl hguard) le_rfl trivial

/-- The punch goes to the candidate that is left. -/
theorem home_punch_is_direct : ∃ id d, (id, Event.sent d) ∈ homePunched.out ∧ d.dest = roamHome ∧
    ∃ y ∈ homeRun, Admits y d.dest ∧ blocksBroadcast y.own d.dest.address = false := by
  have hsent : ∃ x ∈ homePunched.out, x.2.sent?.any (·.dest = roamHome) = true := by decide +kernel
  obtain ⟨⟨id, event⟩, hmem, hany⟩ := hsent
  cases event with
  | sent d =>
    have hdest : d.dest = roamHome := by simpa [Event.sent?] using hany
    obtain ⟨y, hy, hadmits, -, -, -, -, hsubnet⟩ :=
      destinations_do_not_reflect home_run 3 _ rfl (.startPunch 2) 0 rfl id d hmem
    refine ⟨id, d, hmem, hdest, y, List.mem_of_mem_take hy, hadmits, hsubnet ?_⟩
    rw [hdest]
    decide
  | transition before after => cases hany
  | delivered inner => cases hany
  | retired epoch => cases hany
  | line l => cases hany

end Sangtachi.Tunnel
