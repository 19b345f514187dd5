import Sangtachi.Peer.Replies

/-! # Two-party handshake

Two sessions configured for each other over a network that loses, repeats, reorders and delays
datagrams and shows any source address, but delivers only what the other side handed over. -/
namespace Sangtachi.Peer

open Sangtachi.BigEndian Sangtachi.Packet Sangtachi.Replay Sangtachi.InnerIpv4

/-! ## The system -/

inductive End where
  | a | b
  deriving DecidableEq, Repr

def End.other : End → End
  | .a => .b
  | .b => .a

theorem other_other (e : End) : e.other.other = e := by cases e <;> rfl

/-- The two configurations and environments. -/
structure Link where
  config : End → SessionConfig
  env : End → SessionIo

/-- Configured for each other; no probe is drawn with the nonce of an attempt. -/
structure Link.Matched (k : Link) : Prop where
  vip : ∀ e, (k.config e).peerVirtualIp = (k.config e.other).localVirtualIp
  fresh : ∀ e i, (k.env e).draw i ≠ some (k.config e).attemptNonce

/-- One side: its session, what it put on the wire and the numbers of the packets it was handed. -/
structure Node where
  session : Session
  wire : List Sent := []
  heard : List U32 := []

abbrev Net := End → Node

/-- A datagram after the receiver's common checks, as coming from `source`. -/
def arrive (d : Sent) (source : Endpoint) : Option RxPacket :=
  match checkCommon d.bytes with
  | .ok (header, payload) => some ⟨header, payload, source⟩
  | .error _ => none

/-- One call on one side; only successful sends reach the wire. -/
def Net.call (k : Link) (n : Net) (e : End) (op : Op) (T : Millis) (heard : List U32) : Net :=
  let s := step (k.config e) (k.env e) (n e).session op T
  Function.update n e
    { session := s
      wire := (n e).wire ++ (sentOf s.out).filter (·.ok)
      heard := (n e).heard ++ heard }

def Net.hear (k : Link) (n : Net) (e : End) (p : RxPacket) (T : Millis) : Net :=
  n.call k e (.receive p) T [p.header.sequence]

/-- The steps: a call that is not a reception, or the delivery of any datagram the other side has
ever put on the wire. Neither order nor number of deliveries is restricted, nor are the clocks. -/
inductive NetStep (k : Link) (n : Net) : Net → Prop where
  | call (e : End) (op : Op) (T : Millis) : op.packet = none →
      NetStep k n (n.call k e op T [])
  | deliver (e : End) (d : Sent) (source : Endpoint) (p : RxPacket) (T : Millis) :
      d ∈ (n e.other).wire → arrive d source = some p → NetStep k n (n.hear k e p T)

abbrev NetRun (k : Link) : Net → Net → Prop := Relation.ReflTransGen (NetStep k)

def Net.initial (start : End → Millis) : Net := fun e => { session := create (start e) }

def NetReachable (k : Link) (n : Net) : Prop := ∃ start, NetRun k (.initial start) n

/-! ## Inside one call -/

variable {C : SessionConfig} {E : SessionIo} {s₀ s s' u : Session} {T : Millis}
  {rx : Option RxPacket}

/-- A datagram of this session, as far as the other side relies on it. -/
structure WellSent (C : SessionConfig) (s : Session) (d : Sent) : Prop where
  built : buildPacket d.type d.fields d.payload maxDatagram = some d.bytes
  epoch : d.fields.sessionEpoch = C.localEpoch
  sequence : ∃ i, i < s.sends ∧ d.fields.sequence = BitVec.ofNat 32 i
  payload : d.type = .hello ∨ d.type = .helloAck →
    ∃ nonce, d.payload = encodeHello ⟨nonce, C.localVirtualIp⟩
  evidence : d.type = .helloAck → d.ok = true → s.sentAck = true

/-- What one side keeps inside a call: `epoch` is the other side's, `acked` says that the other
side has answered this attempt, `heard` are the numbers handed over so far. -/
structure Faithful (C : SessionConfig) (E : SessionIo) (epoch : U32) (acked : Prop)
    (heard : List U32) (s₀ s : Session) : Prop where
  pinned : s.pinned = none ∨ s.pinned = some epoch
  renegotiations : s.renegotiations = 0
  got_ack : s.gotAck = true → acked
  sent_ack : s₀.sentAck = true → s.sentAck = true
  probes : ∀ q ∈ s.probes, ∃ i, E.draw i = some q.nonce
  next_seq : s.nextSeq = BitVec.ofNat 32 s.sends
  sends : s₀.sends ≤ s.sends
  window : Knows s.window heard
  wire : ∀ d ∈ sentOf s.out, WellSent C s d

/-- What the network guarantees of a packet it hands over. -/
structure Genuine (C : SessionConfig) (epoch : U32) (acked : Prop) (heard : List U32)
    (p : RxPacket) : Prop where
  epoch : p.header.sessionEpoch = epoch
  heard : p.header.sequence ∈ heard
  ack : ∀ h, p.type = some .helloAck → checkHello C p = .ok h → h.nonce = C.attemptNonce → acked

variable {epoch : U32} {acked : Prop} {heard : List U32}

theorem WellSent.mono {d : Sent} (h : WellSent C s d) (hs : s.sends ≤ s'.sends)
    (ha : s.sentAck = true → s'.sentAck = true) : WellSent C s' d where
  built := h.built
  epoch := h.epoch
  sequence := by
    obtain ⟨i, hi, heq⟩ := h.sequence
    exact ⟨i, by omega, heq⟩
  payload := h.payload
  evidence := fun ht hok => ha (h.evidence ht hok)

theorem Faithful.same (h : Faithful C E epoch acked heard s₀ s) (hp : s'.pinned = s.pinned)
    (hr : s'.renegotiations = s.renegotiations) (hg : s'.gotAck = s.gotAck)
    (ha : s'.sentAck = s.sentAck) (hq : ∀ q ∈ s'.probes, ∃ q' ∈ s.probes, q'.nonce = q.nonce)
    (hn : s'.nextSeq = s.nextSeq) (hs : s'.sends = s.sends) (hw : s'.window = s.window)
    (ho : sentOf s'.out = sentOf s.out) : Faithful C E epoch acked heard s₀ s' where
  pinned := by rw [hp]; exact h.pinned
  renegotiations := by rw [hr]; exact h.renegotiations
  got_ack := by rw [hg]; exact h.got_ack
  sent_ack := by rw [ha]; exact h.sent_ack
  probes := fun q hqm => by
    obtain ⟨q', hq', heq⟩ := hq q hqm
    rw [← heq]
    exact h.probes q' hq'
  next_seq := by rw [hn, hs]; exact h.next_seq
  sends := by rw [hs]; exact h.sends
  window := by rw [hw]; exact h.window
  wire := fun d hd => (h.wire d (by rw [← ho]; exact hd)).mono (by rw [hs]) (by rw [ha]; exact id)

theorem Faithful.core (h : Faithful C E epoch acked heard s₀ s) (hc : SameCore s s') :
    Faithful C E epoch acked heard s₀ s' :=
  h.same hc.pinned hc.renegotiations hc.got_ack hc.sent_ack
    (fun q hq => ⟨q, hc.probes ▸ hq, rfl⟩) hc.next_seq hc.sends hc.window hc.sent

theorem Faithful.spend {dest : Endpoint} {granted : Bool}
    (h : Faithful C E epoch acked heard s₀ s) (hs : Spend C s dest T granted s') :
    Faithful C E epoch acked heard s₀ s' := by
  obtain ⟨counters, milli, stamp, rfl⟩ := hs.updates
  exact h.same rfl rfl rfl rfl (fun q hq => ⟨q, hq, rfl⟩) rfl rfl rfl rfl

theorem Faithful.expire (h : Faithful C E epoch acked heard s₀ s) :
    Faithful C E epoch acked heard s₀ (expireProbes s T) :=
  h.same rfl rfl rfl rfl (fun q hq => ⟨q, List.mem_of_mem_filter hq, rfl⟩) rfl rfl rfl rfl

theorem ofNat_succ (n : ℕ) : BitVec.ofNat 32 n + 1 = BitVec.ofNat 32 (n + 1) := by
  rw [BitVec.ofNat_add]
  rfl

theorem Faithful.sentOne {type : PacketType} {payload : List U8} {dest : Endpoint}
    (h : Faithful C E epoch acked heard s₀ s) (sent : Bool) (counters : Counter → ℕ)
    (hs : SentOne C E s type payload dest s')
    (hpayload : type = .hello ∨ type = .helloAck →
      ∃ nonce, payload = encodeHello ⟨nonce, C.localVirtualIp⟩)
    (hsent : s.sentAck = true → sent = true)
    (hev : type = .helloAck → E.sendOk s.sends = true → sent = true) :
    Faithful C E epoch acked heard s₀ { s' with sentAck := sent, counters := counters } := by
  obtain ⟨counters', bytes, hb⟩ := hs
  refine ⟨h.pinned, h.renegotiations, h.got_ack, fun h₀ => hsent (h.sent_ack h₀), h.probes, ?_,
    h.sends.trans (Nat.le_succ _), h.window, fun d hd => ?_⟩
  · change s.nextSeq + 1 = BitVec.ofNat 32 (s.sends + 1)
    rw [h.next_seq]
    exact ofNat_succ _
  · rw [show sentOf _ = sentOf s.out ++ [nextSent C E s type payload bytes dest] from
      sentOf_append _ _] at hd
    rcases List.mem_append.mp hd with hold | hnew
    · exact (h.wire d hold).mono (Nat.le_succ _) hsent
    · obtain rfl := List.mem_singleton.mp hnew
      exact ⟨hb, rfl, ⟨s.sends, Nat.lt_succ_self _, h.next_seq⟩, hpayload, hev⟩

theorem Faithful.sendPacket {type : PacketType} {payload : List U8} {dest : Endpoint}
    (h : Faithful C E epoch acked heard s₀ s) (hne : type ≠ .helloAck)
    (hpayload : type = .hello → ∃ nonce, payload = encodeHello ⟨nonce, C.localVirtualIp⟩) :
    Faithful C E epoch acked heard s₀ (sendPacket C E s type payload dest).2 := by
  obtain ⟨counters, calls, hs, hcalls⟩ :=
    sendPacket_spec (C := C) (E := E) s type payload dest
  rw [hs]
  rcases hcalls with ⟨rfl, -, -⟩ | ⟨bytes, hb, rfl, -⟩
  · refine ⟨h.pinned, h.renegotiations, h.got_ack, h.sent_ack, h.probes, ?_,
      h.sends.trans (Nat.le_succ _), h.window, fun d hd => ?_⟩
    · change s.nextSeq + 1 = BitVec.ofNat 32 (s.sends + 1)
      rw [h.next_seq]
      exact ofNat_succ _
    · rw [List.append_nil] at hd
      exact (h.wire d hd).mono (Nat.le_succ _) id
  · have hone : SentOne C E s type payload dest _ := .mk counters bytes hb
    exact h.sentOne s.sentAck counters hone
      (fun ht => hpayload (ht.resolve_right hne)) id (fun ht => absurd ht hne)

theorem move_faithful (hrx : ∀ p, rx = some p → Genuine C epoch acked heard p)
    (h : Faithful C E epoch acked heard s₀ s) (hm : Move C E s' rx T s u) :
    Faithful C E epoch acked heard s₀ u := by
  cases hm with
  | quiet hc => exact h.core hc
  | expire => exact h.expire
  | helloRound c _ => exact h.sendPacket (by decide) fun _ => ⟨_, rfl⟩
  | traffic type payload dest h₁ h₂ _ => exact h.sendPacket h₂ fun heq => absurd heq h₁
  | record p hp =>
    have hg := hrx p hp
    exact { h with window := accept_knows h.window hg.heard, wire := fun d hd =>
      (h.wire d hd).mono (le_refl _) id }
  | pin p hp =>
    have hg := hrx p hp
    unfold Peer.pin
    split_ifs
    · exact { h with
        pinned := .inr (congrArg some hg.epoch)
        wire := fun d hd => (h.wire d hd).mono (le_refl _) id }
    · exact h
  | answer i =>
    refine h.same rfl rfl rfl rfl (fun q hq => ?_) rfl rfl rfl rfl
    obtain ⟨j, hj, rfl⟩ := List.mem_iff_getElem.mp hq
    have hj' : j < s.probes.length := by simpa [markAnswered] using hj
    refine ⟨s.probes[j], List.getElem_mem hj', ?_⟩
    simp only [markAnswered, List.getElem_modify]
    split_ifs <;> rfl
  | learn p _ _ =>
    unfold Peer.learn
    split_ifs
    · exact h
    · exact h.same rfl rfl rfl rfl (fun q hq => ⟨q, hq, rfl⟩) rfl rfl rfl
        ((sentOf_append _ _).trans (List.append_nil _))
  | ack p hello _ _ _ =>
    rcases sendHelloAck_cases (C := C) (E := E) s hello.nonce p.source T with
      hs | ⟨u, v, counters, hs, hsent, heq⟩
    · exact h.spend hs
    · rw [heq]
      exact (h.spend hs).sentOne _ _ hsent (fun _ => ⟨_, rfl⟩) (fun ha => by rw [ha]; rfl)
        (fun _ hok => by rw [hok, Bool.or_true])
  | pong p pingId _ =>
    rcases sendPong_cases (C := C) (E := E) s pingId p.source T with hs | ⟨u, hs, hsent⟩
    · exact h.spend hs
    · generalize sendPong C E s pingId p.source T = v at hsent ⊢
      have hv := (h.spend hs).sentOne u.sentAck v.counters hsent
        (fun ht => by rcases ht with ht | ht <;> cases ht) id (fun ht => by cases ht)
      have hflag : v.sentAck = u.sentAck := by cases hsent; rfl
      rw [← hflag] at hv
      exact hv
  | confirm p hello hp htype hcheck hnonce =>
    exact { h with
      got_ack := fun _ => (hrx p hp).ack hello htype hcheck hnonce
      wire := fun d hd => (h.wire d hd).mono (le_refl _) id }
  | probe p _ _ _ =>
    rcases startPathProbe_cases (C := C) (E := E) s p.source T with
      hc | ⟨draws, hs⟩ | ⟨draws, i, nonce, u, -, -, hdraw, hs, hsent⟩
    · exact h.expire.core hc
    · have hd : Faithful C E epoch acked heard s₀ { expireProbes s T with draws := draws } :=
        h.expire.same rfl rfl rfl rfl (fun q hq => ⟨q, hq, rfl⟩) rfl rfl rfl rfl
      exact hd.spend hs
    · have hd : Faithful C E epoch acked heard s₀ { expireProbes s T with draws := draws } :=
        h.expire.same rfl rfl rfl rfl (fun q hq => ⟨q, hq, rfl⟩) rfl rfl rfl rfl
      have hu := hd.spend hs
      have hreg : Faithful C E epoch acked heard s₀
          { u with probes := u.probes ++ [⟨p.source, nonce, T, false⟩] } := by
        refine { hu with probes := fun q hq => ?_, wire := fun d hd =>
          (hu.wire d hd).mono (le_refl _) id }
        rcases List.mem_append.mp hq with hold | hnew
        · exact hu.probes q hold
        · obtain rfl := List.mem_singleton.mp hnew
          exact ⟨i, hdraw⟩
      generalize startPathProbe C E s p.source T = v at hsent ⊢
      have hv := hreg.sentOne u.sentAck v.counters hsent
        (fun _ => ⟨_, rfl⟩) id (fun ht => by cases ht)
      have hflag : v.sentAck = u.sentAck := by cases hsent; rfl
      rw [← hflag] at hv
      exact hv
  | reset p old hp hold hne =>
    -- the pinned epoch is the other side's, and so is the packet's
    have hg := hrx p hp
    rcases h.pinned with hn | hs
    · rw [hold] at hn
      cases hn
    · rw [hold] at hs
      exact absurd (hg.epoch.trans (Option.some.inj hs).symm) hne
  | terminate st =>
    exact h.same rfl rfl rfl rfl (fun q hq => by cases hq) rfl rfl rfl
      ((sentOf_append _ _).trans (List.append_nil _))

/-! ## The invariant of the two sides -/

/-- The other side has answered the attempt of `e`. -/
def Acked (k : Link) (n : Net) (e : End) : Prop :=
  ∃ d ∈ (n e.other).wire, d.type = .helloAck ∧
    d.payload = encodeHello ⟨(k.config e).attemptNonce, (k.config e.other).localVirtualIp⟩

structure NetInvariant (k : Link) (n : Net) : Prop where
  live : ∀ e, Live (n e).session ∨ ∃ st, Ended (n e).session st
  faithful : ∀ e,
    Faithful (k.config e) (k.env e) (k.config e.other).localEpoch (Acked k n e) (n e).heard
    { (n e).session with out := [] } { (n e).session with out := [] }
  wire : ∀ e, ∀ d ∈ (n e).wire, WellSent (k.config e) (n e).session d ∧ d.ok = true
  heard : ∀ e, ∀ q ∈ (n e).heard, ∃ d ∈ (n e.other).wire, d.fields.sequence = q

theorem initial_invariant (k : Link) (start : End → Millis) :
    NetInvariant k (.initial start) where
  live := fun e => .inl ⟨rfl, rfl, rfl, rfl, rfl, rfl, rfl⟩
  faithful := fun e => ⟨.inl rfl, rfl, fun h => (by cases h), id, fun q hq => (by cases hq), rfl,
    le_refl _, ⟨fun h => (by cases h), fun h => (by cases h)⟩, fun d hd => (by cases hd)⟩
  wire := fun e d hd => by cases hd
  heard := fun e q hq => by cases hq

theorem Faithful.weaken {acked' : Prop} {heard' : List U32}
    (h : Faithful C E epoch acked heard s₀ s) (ha : acked → acked') (hh : heard ⊆ heard') :
    Faithful C E epoch acked' heard' s₀ s :=
  { h with got_ack := fun hg => ha (h.got_ack hg), window := h.window.mono hh }

theorem moves_faithful (hrx : ∀ p, rx = some p → Genuine C epoch acked heard p)
    (h : Faithful C E epoch acked heard s s) (hm : Moves C E s rx T s s') :
    Faithful C E epoch acked heard s s' := by
  induction hm with
  | refl => exact h
  | tail _ hm ih => exact move_faithful hrx ih hm

theorem step_live_or_ended (h : Live s ∨ ∃ st, Ended s st) (op : Op) :
    Live (step C E s op T) ∨ ∃ st, Ended (step C E s op T) st := by
  rcases h with h | ⟨st, h⟩
  · rcases step_live (C := C) (E := E) (T := T) h op with
      ⟨h', -⟩ | ⟨-, h'⟩ | ⟨-, h', -⟩ | ⟨-, h', -⟩
    · exact .inl h'
    · exact .inr ⟨_, h'.ended⟩
    · exact .inr ⟨_, h'⟩
    · exact .inr ⟨_, h'⟩
  · exact .inr ⟨st, (step_ended h op).1⟩

variable {k : Link} {n n' : Net}

theorem call_self (e : End) (op : Op) (heard : List U32) :
    n.call k e op T heard e =
      { session := step (k.config e) (k.env e) (n e).session op T
        wire := (n e).wire ++
          (sentOf (step (k.config e) (k.env e) (n e).session op T).out).filter (·.ok)
        heard := (n e).heard ++ heard } := Function.update_self ..

theorem call_other (e : End) (op : Op) (heard : List U32) :
    n.call k e op T heard e.other = n e.other := by
  have hne : e.other ≠ e := by cases e <;> decide
  exact Function.update_of_ne hne _ _

theorem eq_or_other (e e' : End) : e' = e ∨ e' = e.other := by
  cases e <;> cases e' <;> simp [End.other]

theorem call_preserves_invariant (h : NetInvariant k n) (e : End) (op : Op) (heard : List U32)
    (hrx : ∀ p, op.packet = some p →
      Genuine (k.config e) (k.config e.other).localEpoch (Acked k n e) ((n e).heard ++ heard) p)
    (hheard : ∀ q ∈ heard, ∃ d ∈ (n e.other).wire, d.fields.sequence = q) :
    NetInvariant k (n.call k e op T heard) := by
  have hlive := step_live_or_ended (C := k.config e) (E := k.env e) (T := T) (h.live e) op
  have hmoves := step_moves (C := k.config e) (E := k.env e) (T := T) (h.live e) op
  have hstart := (h.faithful e).weaken id (List.subset_append_left (n e).heard heard)
  have hend := moves_faithful hrx hstart hmoves
  have hself := call_self (k := k) (n := n) (T := T) e op heard
  have hother := call_other (k := k) (n := n) (T := T) e op heard
  have hacked : Acked k (n.call k e op T heard) e = Acked k n e := by
    unfold Acked
    rw [hother]
  have hacked' : Acked k n e.other → Acked k (n.call k e op T heard) e.other := by
    rintro ⟨d, hd, ht, hp⟩
    refine ⟨d, ?_, ht, hp⟩
    rw [other_other] at hd ⊢
    rw [hself]
    exact List.mem_append_left _ hd
  refine ⟨fun e' => ?_, fun e' => ?_, fun e' => ?_, fun e' => ?_⟩
  all_goals rcases eq_or_other e e' with rfl | rfl
  · rw [hself]
    exact hlive
  · rw [hother]
    exact h.live _
  · rw [hself, hacked]
    exact ⟨hend.pinned, hend.renegotiations, hend.got_ack, id, hend.probes, hend.next_seq,
      le_refl _, hend.window, fun d hd => (by cases hd)⟩
  · rw [hother]
    exact (h.faithful _).weaken hacked' (List.Subset.refl _)
  · rw [hself]
    intro d hd
    rcases List.mem_append.mp hd with hold | hnew
    · exact ⟨(h.wire e' d hold).1.mono hend.sends hend.sent_ack, (h.wire e' d hold).2⟩
    · obtain ⟨hmem, hok⟩ := List.mem_filter.mp hnew
      exact ⟨hend.wire d hmem, hok⟩
  · rw [hother]
    exact h.wire _
  · rw [hself, hother]
    intro q hq
    rcases List.mem_append.mp hq with hold | hnew
    · exact h.heard e' q hold
    · exact hheard q hnew
  · rw [hother, other_other, hself]
    intro q hq
    obtain ⟨d, hd, heq⟩ := h.heard e.other q hq
    rw [other_other] at hd
    exact ⟨d, List.mem_append_left _ hd, heq⟩

theorem arrive_eq {d : Sent} {source : Endpoint} {p : RxPacket}
    (hb : buildPacket d.type d.fields d.payload maxDatagram = some d.bytes)
    (ha : arrive d source = some p) :
    p = ⟨headerOf d.type d.fields d.payload, d.payload, source⟩ ∧ p.type = some d.type := by
  rw [arrive, checkCommon_buildPacket hb] at ha
  obtain rfl := Option.some.inj ha
  exact ⟨rfl, ofByte?_code d.type⟩

theorem arrive_hello {d : Sent} {source : Endpoint} {p : RxPacket} {hello : HelloPayload}
    (hb : buildPacket d.type d.fields d.payload maxDatagram = some d.bytes)
    (ha : arrive d source = some p) (hp : d.payload = encodeHello hello)
    {h : HelloPayload} (hcheck : checkHello C p = .ok h) : h = hello := by
  obtain ⟨rfl, -⟩ := arrive_eq hb ha
  have hdec := (checkHello_decode hcheck).1
  change decodeHello d.payload = .ok h at hdec
  rw [hp, decodeHello_encodeHello] at hdec
  exact (Except.ok.inj hdec).symm

theorem deliver_genuine (h : NetInvariant k n) {e : End} {d : Sent} {source : Endpoint}
    {p : RxPacket} (hd : d ∈ (n e.other).wire) (ha : arrive d source = some p) :
    Genuine (k.config e) (k.config e.other).localEpoch (Acked k n e)
      ((n e).heard ++ [p.header.sequence]) p := by
  obtain ⟨hw, -⟩ := h.wire e.other d hd
  obtain ⟨hp, htype⟩ := arrive_eq hw.built ha
  refine ⟨?_, List.mem_append_right _ (List.mem_singleton.mpr rfl),
    fun hello ht hcheck hnonce => ?_⟩
  · rw [hp]
    exact hw.epoch
  · have hack : d.type = .helloAck := Option.some.inj (htype.symm.trans ht)
    obtain ⟨nonce, hpay⟩ := hw.payload (.inr hack)
    have heq := arrive_hello hw.built ha hpay hcheck
    refine ⟨d, hd, hack, ?_⟩
    rw [hpay, ← hnonce, heq]

theorem netStep_preserves_invariant (h : NetInvariant k n) (hs : NetStep k n n') :
    NetInvariant k n' := by
  cases hs with
  | call e op T hop =>
    exact call_preserves_invariant h e op [] (fun p hp => by rw [hop] at hp; cases hp)
      (fun q hq => by cases hq)
  | deliver e d source p T hd ha =>
    refine call_preserves_invariant h e (.receive p) _ (fun p' hp' => ?_) (fun q hq => ?_)
    · obtain rfl := Option.some.inj hp'
      exact deliver_genuine h hd ha
    · obtain rfl := List.mem_singleton.mp hq
      obtain ⟨rfl, -⟩ := arrive_eq (h.wire e.other d hd).1.built ha
      exact ⟨d, hd, rfl⟩

theorem netRun_invariant (h : NetInvariant k n) (hr : NetRun k n n') : NetInvariant k n' := by
  induction hr with
  | refl => exact h
  | tail _ hs ih => exact netStep_preserves_invariant ih hs

theorem reachable_invariant (h : NetReachable k n) : NetInvariant k n := by
  obtain ⟨start, hr⟩ := h
  exact netRun_invariant (initial_invariant k start) hr

/-! ## Agreement -/

theorem gotAck_of_connected (h : s.state = .connected) (hl : Live s ∨ ∃ st, Ended s st) :
    s.gotAck = true ∧ s.sentAck = true := by
  rcases hl with hl | ⟨st, he⟩
  · exact (state_connected_iff hl.terminal).mp h
  · rw [state_of_terminal he.terminal] at h
    rcases he.isTerminal with hst | hst <;> rw [hst] at h <;> cases h

theorem other_sentAck (h : NetInvariant k n) {e : End} (hc : (n e).session.state = .connected) :
    Acked k n e ∧ (n e.other).session.sentAck = true := by
  have hacked := (h.faithful e).got_ack (gotAck_of_connected hc (h.live e)).1
  obtain ⟨d, hd, ht, hp⟩ := hacked
  obtain ⟨hw, hok⟩ := h.wire e.other d hd
  exact ⟨⟨d, hd, ht, hp⟩, hw.evidence ht hok⟩

theorem not_punching (hs : s.sentAck = true) (hl : Live s ∨ ∃ st, Ended s st) :
    s.state ≠ .punching := by
  rcases hl with hl | ⟨st, he⟩
  · rw [Ne, flags_of_punching hl.terminal, hs]
    simp
  · rw [state_of_terminal he.terminal]
    rcases he.isTerminal with rfl | rfl <;> decide

/-! ## Recovery: what the two receptions compute -/

/-- A packet of the handshake under the pinned epoch, newer than what was received. -/
structure Fresh (s : Session) (p : RxPacket) : Prop where
  epoch : s.pinned = none ∨ s.pinned = some p.header.sessionEpoch
  accepted : (s.window.check p.header.sequence).accepted = true

theorem receivePassed_bare {p : RxPacket} {pass : EpochPass}
    (htype : p.type = some .hello ∨ p.type = some .helloAck)
    (haccepted : (s.window.check p.header.sequence).accepted = true)
    (hpass : pass.renegotiated = false) :
    receivePassed C E s p pass T = applyEffects C E
      (recordPacket s p.header.sequence).2 p pass (s.window.check p.header.sequence) .bare T := by
  have hd : recordPacket s p.header.sequence =
      (s.window.check p.header.sequence, (recordPacket s p.header.sequence).2) := rfl
  generalize (recordPacket s p.header.sequence).2 = u at hd ⊢
  have hcheck : checkType C u p T = (u, .ok .bare) := by
    rcases htype with ht | ht <;> simp only [checkType, ht]
  have hverdict : (s.window.check p.header.sequence).verdict = .advance ∨
      (s.window.check p.header.sequence).verdict = .reorder := by
    simpa [ReplayDecision.accepted] using haccepted
  unfold receivePassed
  rw [hd]
  dsimp only
  rcases hverdict with hverdict | hverdict
  all_goals
    rw [hverdict, hcheck]
    dsimp only
    rw [hpass]
    rfl

theorem pin_sends (e : U32) : (pin s e).sends = s.sends ∧ (pin s e).nextSeq = s.nextSeq := by
  unfold Peer.pin
  split_ifs <;> exact ⟨rfl, rfl⟩

theorem learn_sends (e : Endpoint) :
    (learn s e).sends = s.sends ∧ (learn s e).nextSeq = s.nextSeq := by
  unfold learn
  split_ifs <;> exact ⟨rfl, rfl⟩

theorem renewIdle_core (before : SessionState) : SameCore s (renewIdle s before T) := by
  unfold renewIdle
  split_ifs <;> constructor <;> rfl

theorem receive_hello_reply (hl : Live s) (hc : s.state = .connected) {p : RxPacket}
    {h : HelloPayload} (htype : p.type = some .hello) (hcheck : checkHello C p = .ok h)
    (hf : Fresh s p) (hadvances : (s.window.check p.header.sequence).verdict = .advance)
    (hcand : p.source ∈ C.candidates) (hok : E.sendOk s.sends = true) :
    ∃ d, Event.sent d ∈ (receive C E s p T).2.out ∧ d.type = .helloAck ∧ d.ok = true ∧
      d.payload = encodeHello ⟨h.nonce, C.localVirtualIp⟩ ∧ d.fields.sequence = s.nextSeq := by
  have hepoch : checkEpoch C E s p T = (s, .ok (.hello h false)) := by
    simp only [checkEpoch, htype, hcheck, checkEpochHello]
    rcases hf.epoch with hn | hs
    · rw [hn]
    · rw [hs]
      simp
  have hu := recordPacket_same (s := s) p.header.sequence
  unfold receive
  rw [active_of_live hl.terminal, hepoch]
  simp only [Bool.not_true, Bool.false_eq_true, if_false]
  rw [receivePassed_bare (.inl htype) hf.accepted rfl]
  have hsends : (recordPacket s p.header.sequence).2.sends = s.sends ∧
      (recordPacket s p.header.sequence).2.nextSeq = s.nextSeq := ⟨rfl, rfl⟩
  generalize (recordPacket s p.header.sequence).2 = u at hu hsends ⊢
  have hv : ∀ x : Session, isVerified C x p.source = true := fun x => verified_of_candidate hcand
  have hadv : (s.window.check p.header.sequence).advanced = true := by
    simp [ReplayDecision.advanced, hadvances]
  have hlearn : learnSource C (pin u p.header.sessionEpoch) p (.hello h false)
      (s.window.check p.header.sequence) =
      (false, learn (pin u p.header.sessionEpoch) p.source) := by
    simp only [learnSource, hadv, hv, if_true]
  unfold applyEffects
  dsimp only
  rw [hlearn]
  have hsame := (hu.trans (pin_same p.header.sessionEpoch)).trans (learn_same p.source)
  obtain ⟨hp₁, hp₂⟩ := pin_sends (s := u) p.header.sessionEpoch
  obtain ⟨hl₁, hl₂⟩ := learn_sends (s := pin u p.header.sessionEpoch) p.source
  have hstate : u.state = .connected := hu.state.trans hc
  rw [hstate]
  generalize learn (pin u p.header.sessionEpoch) p.source = v at hsame hl₁ hl₂ ⊢
  have hvlive := hsame.live hl
  have hvstate : v.state = .connected := hsame.state.trans hc
  obtain ⟨hwlive, hwstate, -⟩ := renewIdle_live (T := T) hvlive
  have hwcore := renewIdle_core (s := v) (T := T) v.state
  rw [hvstate] at hwlive hwstate hwcore
  dsimp only
  generalize renewIdle v .connected T = w at hwlive hwstate hwcore ⊢
  -- the reply: free of charge, and the state stays, so nothing else follows
  obtain ⟨sent, hgrow, hact⟩ := sendHelloAck_same (C := C) (E := E) (s := w) (T := T)
    h.nonce p.source
  have hactstate : (sendHelloAck C E w h.nonce p.source T).state = .connected :=
    connected_of_grown id hgrow hact hwlive.terminal hwstate
  have hresult : settle C E (raiseSource C E (act C E w p (.hello h false) .bare
      .connected T) p.source false T) .connected T =
      sendHelloAck C E w h.nonce p.source T := by
    simp only [act, raiseSource, Bool.false_eq_true, if_false, settle, hactstate, if_true]
  rw [hresult]
  simp only [dropWithoutSink, reduceCtorEq, false_and, if_false]
  rcases sendHelloAck_cases (C := C) (E := E) w h.nonce p.source T with
    hs | ⟨x, y, counters, hs, hsent, heq⟩
  · have hunverified := hs.refused_unverified
    rw [hv w] at hunverified
    cases hunverified
  · rw [heq]
    have hx : x.sends = w.sends ∧ x.nextSeq = w.nextSeq := by
      obtain ⟨c, m, a, rfl⟩ := hs.updates
      exact ⟨rfl, rfl⟩
    have hnumbers : x.sends = s.sends ∧ x.nextSeq = s.nextSeq :=
      ⟨by rw [hx.1, hwcore.sends, hl₁, hp₁, hsends.1],
        by rw [hx.2, hwcore.next_seq, hl₂, hp₂, hsends.2]⟩
    cases hsent with
    | mk counters' bytes hb =>
      refine ⟨_, List.mem_append_right _ (List.mem_singleton.mpr rfl), rfl, ?_, rfl, hnumbers.2⟩
      change E.sendOk x.sends = true
      rw [hnumbers.1]
      exact hok

theorem receive_ack_connects (hl : Live s) (hsent : s.sentAck = true)
    (hne : s.state ≠ .connected) {p : RxPacket} {h : HelloPayload}
    (htype : p.type = some .helloAck) (hcheck : checkHello C p = .ok h)
    (hnonce : h.nonce = C.attemptNonce) (hprobes : ∀ q ∈ s.probes, q.nonce ≠ h.nonce)
    (hf : Fresh s p) : (receive C E s p T).2.state = .connected := by
  have hindex : probeIndex (expireProbes s T) h.nonce p.source = none := by
    refine List.findIdx?_eq_none_iff.mpr fun q hq => ?_
    simp [hprobes q (List.mem_of_mem_filter hq)]
  have hepoch : checkEpoch C E s p T = (expireProbes s T, .ok (.ack h none)) := by
    have hpinned : (expireProbes s T).pinned.any (· ≠ p.header.sessionEpoch) = false := by
      rcases hf.epoch with hn | hs
      · simp [expireProbes, hn]
      · simp [expireProbes, hs]
    simp only [checkEpoch, htype, hcheck, checkEpochAck, hindex]
    rw [if_neg (not_not.mpr hnonce), if_neg (by rw [hpinned]; decide)]
  unfold receive
  rw [active_of_live hl.terminal, hepoch]
  simp only [Bool.not_true, Bool.false_eq_true, if_false]
  rw [receivePassed_bare (s := expireProbes s T) (.inr htype) hf.accepted rfl]
  have hu := (expireProbes_same (s := s) (T := T)).trans
    (recordPacket_same p.header.sequence)
  generalize (recordPacket (expireProbes s T) p.header.sequence).2 = u at hu ⊢
  have hstate : u.state ≠ .connected := by rwa [hu.state]
  have hlearn := (hu.trans (pin_same p.header.sessionEpoch)).trans (learnSource_same (C := C) p
    (.ack h none) ((expireProbes s T).window.check p.header.sequence))
  unfold applyEffects
  dsimp only
  generalize learnSource C (pin u p.header.sessionEpoch) p (.ack h none)
    ((expireProbes s T).window.check p.header.sequence) = r at hlearn ⊢
  obtain ⟨probeSource, v⟩ := r
  have hidle : renewIdle v u.state T = v := by simp [renewIdle, hstate]
  dsimp only
  rw [hidle]
  have hact : act C E v p (.ack h none) .bare u.state T = { v with gotAck := true } := by
    simp [act, hstate]
  rw [hact]
  have hraise := raiseSource_same (C := C) (E := E) (s := { v with gotAck := true })
    (T := T) p.source probeSource
  generalize raiseSource C E { v with gotAck := true } p.source probeSource T = x at hraise ⊢
  have hxterm : x.terminal = none := hraise.terminal.trans (hlearn.terminal.trans hl.terminal)
  have hxfail : x.failure = none := hraise.failure.trans (hlearn.failure.trans hl.failure)
  have hxstate : x.state = .connected :=
    (state_connected_iff hxterm).mpr
      ⟨hraise.got_ack, hraise.sent_ack.trans (hlearn.sent_ack.trans hsent)⟩
  have hdrop : ∀ y : Session, dropWithoutSink E y .bare = (none, y) := by
    intro y
    simp [dropWithoutSink]
  rw [hdrop]
  obtain ⟨-, hconnected, -⟩ := enterConnected_live (C := C) (E := E) (T := T) hxterm
    hxfail hxstate
  unfold settle
  dsimp only
  rw [if_neg (by rw [hxstate]; exact Ne.symm hstate), if_pos hxstate]
  exact (emit_same rfl).state.trans hconnected

/-! ## Recovery: in the system -/

theorem netStep_wire (hs : NetStep k n n') (e : End) : (n e).wire ⊆ (n' e).wire := by
  have call_wire : ∀ (e' : End) op T heard, (n e).wire ⊆ (n.call k e' op T heard e).wire := by
    intro e' op T heard
    rcases eq_or_other e' e with rfl | rfl
    · rw [call_self]
      exact List.subset_append_left _ _
    · rw [call_other]
      exact List.Subset.refl _
  cases hs with
  | call e' op T _ => exact call_wire e' op T []
  | deliver e' d source p T _ _ => exact call_wire e' (.receive p) T _

theorem netRun_wire (hr : NetRun k n n') (e : End) : (n e).wire ⊆ (n' e).wire := by
  induction hr with
  | refl => exact List.Subset.refl _
  | tail _ hs ih => exact List.Subset.trans ih (netStep_wire hs e)

theorem advances_of_newer (h : NetInvariant k n) (e : End) {seq : U32}
    (hnew : ∀ q ∈ (n e).heard, q.toNat < seq.toNat) (hbound : seq.toNat < 2 ^ 31) :
    ((n e).session.window.check seq).verdict = .advance := by
  by_cases hi : (n e).session.window.initialized = true
  · exact check_newer (isNewer_of_lt (hnew _ ((h.faithful e).window.top hi)) hbound)
  · exact check_fresh (by simpa using hi) seq

theorem sequence_toNat {d : Sent} (hw : WellSent C s d) :
    d.fields.sequence.toNat < s.sends := by
  obtain ⟨i, hi, heq⟩ := hw.sequence
  rw [heq, BitVec.toNat_ofNat]
  exact (Nat.mod_le _ _).trans_lt hi

theorem nextSeq_toNat (hseq : s.nextSeq = BitVec.ofNat 32 s.sends) (hbound : s.sends < 2 ^ 31) :
    s.nextSeq.toNat = s.sends := by
  rw [hseq, BitVec.toNat_ofNat]
  exact Nat.mod_eq_of_lt (hbound.trans (by decide))

theorem live_of_state (hl : Live s ∨ ∃ st, Ended s st)
    (hs : s.state = .connected ∨ s.state = .handshaking) : Live s := by
  rcases hl with hl | ⟨st, he⟩
  · exact hl
  · rw [state_of_terminal he.terminal] at hs
    rcases he.isTerminal with rfl | rfl <;> simp at hs

theorem checkHello_encode {p : RxPacket} {hello : HelloPayload}
    (hp : p.payload = encodeHello hello) (hv : hello.virtualIp = C.peerVirtualIp) :
    checkHello C p = .ok hello := by
  simp [checkHello, hp, decodeHello_encodeHello, hv]

/-- A HELLO of the retransmission round of the side `e`. -/
def RoundOf (k : Link) (e : End) (d : Sent) : Prop :=
  d.type = .hello ∧
    d.payload = encodeHello ⟨(k.config e).attemptNonce, (k.config e).localVirtualIp⟩

/-- `d` answers the attempt of the other side of `e`. -/
def AnswerOf (k : Link) (e : End) (d : Sent) : Prop :=
  d.type = .helloAck ∧
    d.payload = encodeHello ⟨(k.config e.other).attemptNonce, (k.config e).localVirtualIp⟩

def NewerThanHeard (n : Net) (e : End) (d : Sent) : Prop :=
  ∀ q ∈ (n e).heard, q.toNat < d.fields.sequence.toNat

/-- `d` was not handed to `e`, and nothing more than a window ahead of it. -/
def NotOvertaken (n : Net) (e : End) (d : Sent) : Prop :=
  ∀ q ∈ (n e).heard, q ≠ d.fields.sequence ∧ q.toNat ≤ d.fields.sequence.toNat + replayWindow

theorem hello_is_answered (hk : k.Matched) (h : NetInvariant k n) {e : End} {d : Sent}
    {source : Endpoint} {p : RxPacket} (hc : (n e).session.state = .connected)
    (hd : d ∈ (n e.other).wire) (hround : RoundOf k e.other d) (hnew : NewerThanHeard n e d)
    (hbounds : ∀ e, (n e).session.sends < 2 ^ 31) (ha : arrive d source = some p)
    (hsource : source ∈ (k.config e).candidates)
    (hok : (k.env e).sendOk (n e).session.sends = true) :
    ∃ ack ∈ (n.hear k e p T e).wire, AnswerOf k e ack ∧
      NewerThanHeard (n.hear k e p T) e.other ack ∧ ack.fields.sequence.toNat < 2 ^ 31 := by
  obtain ⟨hw, -⟩ := h.wire e.other d hd
  obtain ⟨hp, htype⟩ := arrive_eq hw.built ha
  have hf := h.faithful e
  have hl := live_of_state (h.live e) (.inl hc)
  have hcheck : checkHello (k.config e) p = .ok _ := checkHello_encode
    (by rw [hp]; exact hround.2) (hk.vip e).symm
  have hadvances : ((n e).session.window.check p.header.sequence).verdict = .advance := by
    rw [hp]
    exact advances_of_newer h e hnew ((sequence_toNat hw).trans (hbounds _))
  have hfresh : Fresh ({ (n e).session with out := [] } : Session) p := by
    refine ⟨?_, ?_⟩
    · rw [hp]
      refine hf.pinned.imp id fun hs => hs.trans ?_
      exact congrArg some hw.epoch.symm
    · simp [ReplayDecision.accepted, hadvances]
  obtain ⟨ack, hmem, htack, hackok, hpack, hseq⟩ := receive_hello_reply (C := k.config e)
    (E := k.env e) (s := { (n e).session with out := [] }) (T := T)
    ⟨hl.terminal, hl.failure, hl.timers⟩ hc (htype.trans (congrArg some hround.1)) hcheck hfresh
    hadvances (by rw [hp]; exact hsource) hok
  have hnumber : ack.fields.sequence.toNat = (n e).session.sends := by
    rw [hseq]
    exact nextSeq_toNat hf.next_seq (hbounds e)
  refine ⟨ack, ?_, ⟨htack, hpack⟩, fun q hq => ?_, by rw [hnumber]; exact hbounds e⟩
  · rw [Net.hear, call_self]
    exact List.mem_append_right _ (List.mem_filter.mpr ⟨mem_sentOf.mpr hmem, hackok⟩)
  · rw [Net.hear, call_other] at hq
    obtain ⟨d', hd', heq⟩ := h.heard e.other q hq
    rw [other_other] at hd'
    rw [hnumber, ← heq]
    exact sequence_toNat (h.wire e d' hd').1

theorem answer_connects (hk : k.Matched) (h : NetInvariant k n) {e : End} {ack : Sent}
    {source : Endpoint} {p : RxPacket} (hs : (n e.other).session.state = .handshaking)
    (hsent : (n e.other).session.sentAck = true) (hack : ack ∈ (n e).wire)
    (hans : AnswerOf k e ack) (hnear : NotOvertaken n e.other ack)
    (hbound : ack.fields.sequence.toNat < 2 ^ 31) (ha : arrive ack source = some p) :
    (n.hear k e.other p T e.other).session.state = .connected := by
  obtain ⟨hw, -⟩ := h.wire e ack hack
  obtain ⟨hp, htype⟩ := arrive_eq hw.built ha
  have hf := h.faithful e.other
  have hl := live_of_state (h.live e.other) (.inr hs)
  have hvip := hk.vip e.other
  rw [other_other] at hvip
  have hcheck : checkHello (k.config e.other) p = .ok _ := checkHello_encode
    (by rw [hp]; exact hans.2) hvip.symm
  rw [Net.hear, call_self]
  refine receive_ack_connects (C := k.config e.other) (E := k.env e.other)
    (s := { (n e.other).session with out := [] }) ⟨hl.terminal, hl.failure, hl.timers⟩ hsent ?_
    (htype.trans (congrArg some hans.1)) hcheck rfl ?_ ?_
  · intro hc
    rw [show ({ (n e.other).session with out := [] } : Session).state =
      (n e.other).session.state from rfl, hs] at hc
    cases hc
  · intro q hq heq
    obtain ⟨i, hi⟩ := hf.probes q hq
    exact hk.fresh e.other i (by rw [hi, heq])
  · refine ⟨?_, ?_⟩
    · rw [hp]
      refine hf.pinned.imp id fun hs => hs.trans ?_
      rw [other_other]
      exact congrArg some hw.epoch.symm
    · rw [hp]
      exact hf.window.accepts hbound hnear

/-- Agreement and recovery of the handshake, for every interleaving of the two sides' calls and of
deliveries: a pinned epoch is the other side's and nothing counts as a renegotiation; a connected
side has been answered and its peer is past `PUNCHING`; and a lost last HELLO_ACK is repaired by
one newer HELLO of the round, however much happens before its answer arrives, unless packets that
left later overtake the answer by more than the window holds. -/
theorem handshake_agreement_and_recovery (hk : k.Matched) (hn : NetReachable k n) :
    (∀ e, ((n e).session.pinned = none ∨
        (n e).session.pinned = some (k.config e.other).localEpoch) ∧
        (n e).session.renegotiations = 0) ∧
      (∀ e, (n e).session.state = .connected →
        Acked k n e ∧ (n e.other).session.state ≠ .punching) ∧
      ∀ e d source p T, (∀ e, (n e).session.sends < 2 ^ 31) →
        (n e).session.state = .connected → (n e.other).session.state = .handshaking →
        d ∈ (n e.other).wire → RoundOf k e.other d → NewerThanHeard n e d →
        source ∈ (k.config e).candidates → arrive d source = some p →
        (k.env e).sendOk (n e).session.sends = true →
        ∃ ack ∈ (n.hear k e p T e).wire, AnswerOf k e ack ∧
          NewerThanHeard (n.hear k e p T) e.other ack ∧
          ∀ n' source' p' now', NetRun k (n.hear k e p T) n' →
            (n' e.other).session.state = .handshaking → NotOvertaken n' e.other ack →
            arrive ack source' = some p' →
            (n'.hear k e.other p' now' e.other).session.state = .connected := by
  have h := reachable_invariant hn
  refine ⟨fun e => ⟨(h.faithful e).pinned, (h.faithful e).renegotiations⟩, fun e hc => ?_, ?_⟩
  · obtain ⟨hacked, hsent⟩ := other_sentAck h hc
    exact ⟨hacked, not_punching hsent (h.live e.other)⟩
  · intro e d source p T hbounds hc hs hd hround hnew hsource ha hok
    obtain ⟨ack, hmem, hans, hfirst, hbound⟩ :=
      hello_is_answered (T := T) hk h hc hd hround hnew hbounds ha hsource hok
    refine ⟨ack, hmem, hans, hfirst, ?_⟩
    intro n' source' p' now' hrun hs' hnear ha'
    have hstep : NetStep k n (n.hear k e p T) := .deliver e d source p T hd ha
    have h' := netRun_invariant (netStep_preserves_invariant h hstep) hrun
    -- the peer's own answer is still on its wire, so its evidence still stands
    obtain ⟨⟨d₀, hd₀, ht₀, -⟩, -⟩ := other_sentAck h hc
    have hd₀' := netRun_wire (.head hstep hrun) e.other hd₀
    obtain ⟨hw₀, hok₀⟩ := h'.wire e.other d₀ hd₀'
    exact answer_connects hk h' hs' (hw₀.evidence ht₀ hok₀) (netRun_wire hrun e hmem) hans hnear
      hbound ha'

/-! ## A handshake whose last answer is lost -/

def lanAddress : End → Endpoint
  | .a => ⟨0xC0A80001, 5000⟩
  | .b => ⟨0xC0A80002, 5000⟩

def lanVip : End → U32
  | .a => 0x0A640001
  | .b => 0x0A640002

/-- Two neighbours whose sends always succeed. -/
def lanLink : Link where
  config e :=
    { localPeerId := if e = .a then 1 else 2
      localVirtualIp := lanVip e
      peerId := if e = .a then 2 else 1
      peerVirtualIp := lanVip e.other
      candidates := [lanAddress e.other]
      peerIsHost := e = .b
      localEpoch := if e = .a then 7 else 9
      attemptNonce := nonceOf (if e = .a then 1 else 2) }
  env _ :=
    { sendOk := fun _ => true
      draw := fun _ => some (nonceOf 3)
      rttClockUs := none
      dataSink := true }

theorem lan_matched : lanLink.Matched := by
  have hne : ∀ e, nonceOf 3 ≠ (lanLink.config e).attemptNonce := by
    intro e
    cases e <;> decide
  exact ⟨fun e => rfl, fun e i heq => hne e (Option.some.inj heq)⟩

/-- The datagram `d` with a HELLO payload as its sender builds it. -/
def lanSent (e : End) (type : PacketType) (nonce : Nonce) (seq : U32) : Sent where
  type := type
  fields := ⟨if e = .a then 1 else 2, if e = .a then 7 else 9, seq⟩
  payload := encodeHello ⟨nonce, lanVip e⟩
  bytes := serializeHeader (headerOf type ⟨if e = .a then 1 else 2, if e = .a then 7 else 9, seq⟩
    (encodeHello ⟨nonce, lanVip e⟩)) ++ encodeHello ⟨nonce, lanVip e⟩
  dest := lanAddress e.other
  ok := true
  verified := true

def lanPacket (e : End) (type : PacketType) (nonce : Nonce) (seq : U32) : RxPacket where
  header := headerOf type ⟨if e = .a then 1 else 2, if e = .a then 7 else 9, seq⟩
    (encodeHello ⟨nonce, lanVip e⟩)
  payload := encodeHello ⟨nonce, lanVip e⟩
  source := lanAddress e

/-- Both punch, and the HELLO of `a` reaches `b`, which answers. -/
def lanAnswered : Net :=
  (((Net.initial fun _ => 0).call lanLink .a .startPunch 0 []).call lanLink .b
    .startPunch 0 []).hear
    lanLink .b (lanPacket .a .hello (nonceOf 1) 0) 10

/-- `a` hears the answer, then the delayed first HELLO of `b`; its own answer to that is lost, and
`b` sends its next round. -/
def lanNet : Net :=
  ((lanAnswered.hear lanLink .a (lanPacket .b .helloAck (nonceOf 1) 1) 20).hear
    lanLink .a (lanPacket .b .hello (nonceOf 2) 0) 30).call lanLink .b .poll 200 []

theorem lanAnswered_reachable : NetRun lanLink (.initial fun _ => 0) lanAnswered := by
  have h₁ : NetStep lanLink (.initial fun _ => 0) _ := .call .a .startPunch 0 rfl
  have h₂ : NetStep lanLink _ _ :=
    .call (n := (Net.initial fun _ => 0).call lanLink .a .startPunch 0 [])
    .b .startPunch 0 rfl
  refine .tail (.tail (.tail .refl h₁) h₂) ?_
  exact .deliver .b (lanSent .a .hello (nonceOf 1) 0) (lanAddress .a) _ 10 (by decide +kernel) rfl

theorem lanNet_reachable : NetReachable lanLink lanNet := by
  refine ⟨fun _ => 0, lanAnswered_reachable.trans ?_⟩
  have h₁ : NetStep lanLink lanAnswered _ := .deliver .a (lanSent .b .helloAck (nonceOf 1) 1)
    (lanAddress .b) (lanPacket .b .helloAck (nonceOf 1) 1) 20 (by decide +kernel) rfl
  have h₂ :
    NetStep lanLink (lanAnswered.hear lanLink .a (lanPacket .b .helloAck (nonceOf 1) 1) 20) _ :=
    .deliver .a (lanSent .b .hello (nonceOf 2) 0) (lanAddress .b)
      (lanPacket .b .hello (nonceOf 2) 0) 30 (by decide +kernel) rfl
  exact .tail (.tail (.tail .refl h₁) h₂) (.call .b .poll 200 rfl)

theorem lan_newer : NewerThanHeard lanNet .a (lanSent .b .hello (nonceOf 2) 2) := by
  have hheard : (lanNet .a).heard = [1, 0] := rfl
  have hseq : (lanSent .b .hello (nonceOf 2) 2).fields.sequence.toNat = 2 := rfl
  intro q hq
  rw [hheard] at hq
  rw [hseq]
  rcases List.mem_pair.mp hq with rfl | rfl
  · exact Nat.lt_succ_self 1
  · exact Nat.zero_lt_succ 1

/-- The next HELLO of `b` is answered, and the answer connects it. -/
def lanRepaired : Net := lanNet.hear lanLink .a (lanPacket .b .hello (nonceOf 2) 2) 210

theorem lan_handshake_recovers :
    ∃ ack ∈ (lanRepaired .a).wire, AnswerOf lanLink .a ack ∧ NewerThanHeard lanRepaired .b ack ∧
      ∀ n' source' p' now', NetRun lanLink lanRepaired n' →
        (n' .b).session.state = .handshaking → NotOvertaken n' .b ack →
        arrive ack source' = some p' →
        (n'.hear lanLink .b p' now' .b).session.state = .connected :=
  (handshake_agreement_and_recovery lan_matched lanNet_reachable).2.2 .a
    (lanSent .b .hello (nonceOf 2) 2) (lanAddress .b) (lanPacket .b .hello (nonceOf 2) 2) 210
    (fun e => by cases e <;> decide +kernel) (by decide +kernel) (by decide +kernel)
    (by decide +kernel) ⟨rfl, rfl⟩ lan_newer (by decide) rfl rfl

/-! ## An answer that is overtaken -/

def lanFiller : List U8 := List.replicate 20 0

/-- After the answer `a` sends DATA `count` times. -/
def lanFlooded : ℕ → Net
  | 0 => lanRepaired
  | count + 1 => (lanFlooded count).call lanLink .a (.sendData lanFiller) 220 []

theorem lanFlooded_run (count : ℕ) : NetRun lanLink lanRepaired (lanFlooded count) := by
  induction count with
  | zero => exact .refl
  | succ count ih => exact .tail ih (.call .a (.sendData lanFiller) 220 rfl)

def lanData (seq : U32) : Sent where
  type := .data
  fields := ⟨1, 7, seq⟩
  payload := lanFiller
  bytes := serializeHeader (headerOf .data ⟨1, 7, seq⟩ lanFiller) ++ lanFiller
  dest := lanAddress .b
  ok := true
  verified := true

def lanDataPacket (seq : U32) : RxPacket where
  header := headerOf .data ⟨1, 7, seq⟩ lanFiller
  payload := lanFiller
  source := lanAddress .a

/-- Of 65 packets sent after the answer the last one comes first. -/
def lanOvertaken : Net := (lanFlooded 65).hear lanLink .b (lanDataPacket 68) 230

theorem lanOvertaken_run : NetRun lanLink lanRepaired lanOvertaken := by
  refine .tail (lanFlooded_run 65) ?_
  exact .deliver .b (lanData 68) (lanAddress .a) (lanDataPacket 68) 230 (by decide +kernel) rfl

/-- An answer that comes behind the window does not connect the session that waits for it. -/
theorem overtaken_answer_is_lost : ¬∀ k n, k.Matched → NetReachable k n →
    ∀ e d source p T, (n e).session.state = .connected → (n e.other).session.state = .handshaking →
      d ∈ (n e.other).wire → RoundOf k e.other d → NewerThanHeard n e d →
      source ∈ (k.config e).candidates → arrive d source = some p →
      (k.env e).sendOk (n e).session.sends = true →
      ∀ ack ∈ (n.hear k e p T e).wire, ack ∉ (n e).wire → AnswerOf k e ack →
        ∀ n' source' p' now', NetRun k (n.hear k e p T) n' → (∀ e, (n' e).session.sends < 2 ^ 31) →
          (n' e.other).session.state = .handshaking → arrive ack source' = some p' →
          (n'.hear k e.other p' now' e.other).session.state = .connected := by
  intro hall
  have hconnected :=
    hall lanLink lanNet lan_matched lanNet_reachable .a (lanSent .b .hello (nonceOf 2) 2)
    (lanAddress .b) (lanPacket .b .hello (nonceOf 2) 2) 210 (by decide +kernel) (by decide +kernel)
    (by decide +kernel) ⟨rfl, rfl⟩ lan_newer (by decide) rfl rfl
    (lanSent .a .helloAck (nonceOf 2) 3) (by decide +kernel) (by decide +kernel) ⟨rfl, rfl⟩
    lanOvertaken (lanAddress .a) (lanPacket .a .helloAck (nonceOf 2) 3) 240 lanOvertaken_run
    (fun e => by cases e <;> decide +kernel) (by decide +kernel) rfl
  have hwaiting :
    (lanOvertaken.hear lanLink .b (lanPacket .a .helloAck (nonceOf 2) 3) 240 .b).session.state =
      .handshaking := by decide +kernel
  have hother : End.a.other = .b := rfl
  rw [hother, hwaiting] at hconnected
  cases hconnected

end Sangtachi.Peer
