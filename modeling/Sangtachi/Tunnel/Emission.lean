import Sangtachi.Peer.Emission
import Sangtachi.Tunnel.Classify
import Sangtachi.Tunnel.RosterCodec
import Sangtachi.Tunnel.Sessions

/-! # What the sessions of a tunnel emit

Whatever a session sends, in whatever turn, its peer takes apart again into the values that went in;
and over the whole run the datagrams of one session are numbered from zero. -/
namespace Sangtachi.Tunnel

open Sangtachi.BigEndian Sangtachi.Packet Sangtachi.Peer

variable {io : SessionId → SessionIo} {T T' U : Tunnel} {e : Entry} {now t : Millis}
  {op : Op} {a : Action}
  {id : SessionId} {past : SessionId → List Sent}

/-! ## One datagram -/

/-- The decoder of the type gives back the values that were encoded. A keepalive carries none, and
the payload of DATA is the inner packet itself. -/
def Decodes (a : Action) (C : SessionConfig) (type : PacketType) (payload : List U8) : Prop :=
  match type with
  | .hello | .helloAck =>
    ∃ p : HelloPayload, p.virtualIp = C.localVirtualIp ∧ payload = encodeHello p ∧
      decodeHello payload = .ok p
  | .keepalive => payload = []
  | .data => a = .sendData payload
  | .ping | .pong => ∃ pingId, payload = encodePing pingId ∧ decodePing payload = .ok pingId
  | .close => ∃ reason, payload = encodeClose reason ∧ decodeClose payload = .ok reason
  | .roster => ∃ generation self peers connected,
      encodeRoster generation (RosterPublisher.build self peers connected).count
        (RosterPublisher.build self peers connected).members rosterMaxPayload = some payload ∧
      ∀ last : Option U32, (∀ g, last = some g → g ≤ generation) →
        decodeRoster payload ⟨true, last⟩ =
          .ok ⟨generation, (RosterPublisher.build self peers connected).members⟩

/-- The datagram passes every check in front of the session of the peer. -/
structure Acceptable (a : Action) (C : SessionConfig) (d : Sent) : Prop where
  size : d.bytes.length ≤ maxDatagram
  classified : ∀ source own, classifyDatagram source d.bytes own ≠ .badSource →
    classifyDatagram source d.bytes own = .tunnelCandidate
  checked : checkCommon d.bytes = .ok (headerOf d.type d.fields d.payload, d.payload)
  decoded : Decodes a C d.type d.payload
  peer : d.fields.peerId = C.localPeerId
  epoch : d.fields.sessionEpoch = C.localEpoch

theorem buildPacket_classified {type : PacketType} {fields : HeaderFields}
    {payload bytes : List U8} {room : ℕ} (h : buildPacket type fields payload room = some bytes) :
    classifyPayload bytes = .tunnelCandidate := by
  obtain ⟨-, rfl⟩ := buildPacket_some h
  have hfirst : read8 (serializeHeader (headerOf type fields payload) ++ payload) 0 = 0x53 := by
    rw [read8_append_left (by rw [length_serializeHeader]; decide)]
    change (tunnelMagic >>> 24).setWidth 8 = 0x53
    decide
  unfold classifyPayload
  rw [hfirst, if_neg, if_neg, if_pos]
  · decide
  · rintro ⟨hstun, -⟩
    exact absurd hstun (by decide)
  · intro hnil
    have hlength := congrArg List.length hnil
    rw [List.length_append, length_serializeHeader] at hlength
    unfold headerSize at hlength
    simp at hlength

theorem buildPacket_size {type : PacketType} {fields : HeaderFields}
    {payload bytes : List U8} {room : ℕ} (h : buildPacket type fields payload room = some bytes) :
    bytes.length ≤ maxDatagram := by
  obtain ⟨hok, rfl⟩ := buildPacket_some h
  have hbound := length_bound_of_ok hok
  rw [List.length_append, length_serializeHeader]
  unfold maxDatagram
  omega

theorem build_count {self : RosterPeer} {peers : List RosterPeer} {connected : List U32}
    {generation : U32} {room : ℕ} {payload : List U8}
    (h : encodeRoster generation (RosterPublisher.build self peers connected).count
      (RosterPublisher.build self peers connected).members room = some payload) :
    (RosterPublisher.build self peers connected).count =
      (RosterPublisher.build self peers connected).members.length := by
  obtain ⟨⟨-, hmax⟩, -, -⟩ := encodeRoster_some h
  unfold RosterPublisher.build at hmax ⊢
  dsimp only at hmax ⊢
  rw [List.length_take]
  unfold maxPeers at hmax ⊢
  omega

theorem payload_build {r : RosterPublisher} {payload : List U8} (hw : Written r)
    (h : r.payload = some payload) :
    ∃ self peers connected,
      encodeRoster r.generation (RosterPublisher.build self peers connected).count
      (RosterPublisher.build self peers connected).members rosterMaxPayload = some payload := by
  obtain ⟨c, hc, hencode⟩ := Option.bind_eq_some_iff.mp h
  obtain ⟨self, peers, connected, rfl⟩ := hw c hc
  exact ⟨self, peers, connected, hencode⟩

theorem payload_length {r : RosterPublisher} {payload : List U8} (hw : Written r)
    (h : r.payload = some payload) :
    payloadLengthOk .roster payload.length = true := by
  obtain ⟨self, peers, connected, hencode⟩ := payload_build hw h
  exact encodeRoster_length hencode (build_count hencode).le

theorem Asked.fits (h : Asked a e.cfg.peerId op) : op.fits := by
  cases op with
  | startPunch => trivial
  | poll => trivial
  | receive p => trivial
  | sendData inner =>
    obtain ⟨-, hmin, hmax⟩ := h
    have hlength : payloadLengthOk .data inner.length = true := by
      simp only [payloadLengthOk, decide_eq_true_eq]
      exact ⟨hmin, hmax⟩
    exact hlength
  | sendRoster payload =>
    obtain ⟨-, r, hw, hpayload⟩ := h
    exact payload_length hw hpayload
  | closeByUser => trivial

theorem encoded_decodes {type : PacketType} {payload : List U8} (hask : Asked a e.cfg.peerId op)
    (h : Encoded e.cfg op type payload) : Decodes a e.cfg type payload := by
  cases type with
  | hello =>
    obtain ⟨nonce, rfl⟩ := h
    exact ⟨⟨nonce, e.cfg.localVirtualIp⟩, rfl, rfl, decodeHello_encodeHello _⟩
  | helloAck =>
    obtain ⟨nonce, rfl⟩ := h
    exact ⟨⟨nonce, e.cfg.localVirtualIp⟩, rfl, rfl, decodeHello_encodeHello _⟩
  | keepalive => exact h
  | data =>
    obtain rfl : op = .sendData payload := h
    exact hask.1
  | ping =>
    obtain ⟨pingId, rfl⟩ := h
    exact ⟨pingId, rfl, decodePing_encodePing pingId⟩
  | pong =>
    obtain ⟨pingId, rfl⟩ := h
    exact ⟨pingId, rfl, decodePing_encodePing pingId⟩
  | close =>
    obtain ⟨reason, rfl⟩ := h
    exact ⟨reason, rfl, decodeClose_encodeClose reason⟩
  | roster =>
    obtain rfl : op = .sendRoster payload := h
    obtain ⟨-, r, hw, hpayload⟩ := hask
    obtain ⟨self, peers, connected, hencode⟩ := payload_build hw hpayload
    refine ⟨r.generation, self, peers, connected, hencode, ?_⟩
    intro last hlast
    have hcount := build_count hencode
    have hdecode := decodeRoster_encodeRoster hencode hcount.le last hlast
    rw [hcount, List.take_length] at hdecode
    exact hdecode

theorem numbered_acceptable {first : U32} {l : List Sent} {d : Sent}
    (hask : Asked a e.cfg.peerId op) (h : Numbered e.cfg op first l) (hd : d ∈ l) :
    Acceptable a e.cfg d := by
  obtain ⟨i, hi⟩ := List.mem_iff_getElem?.mp hd
  obtain ⟨hfields, hencoded, hbuilt⟩ := h i d hi
  constructor
  · exact buildPacket_size hbuilt
  · intro source own hgood
    rcases classifyDatagram_cases own source d.bytes with hbad | ⟨-, hpayload⟩
    · exact absurd hbad hgood
    · rw [hpayload]
      exact buildPacket_classified hbuilt
  · exact checkCommon_buildPacket hbuilt
  · exact encoded_decodes hask hencoded
  · rw [hfields]
  · rw [hfields]

theorem Asked.emits (hask : Asked a e.cfg.peerId op) (E : SessionIo) (now : Millis) :
    Emits e.cfg op (taken e.cfg E e.session op now) { e.session with out := [] }
    (step e.cfg E e.session op now) :=
  step_emits hask.fits

/-! ## One turn -/

theorem emitted_rule (T : Tunnel) (a : Action) : SessionRule io now a
    (fun e => (∃ y ∈ T.sessions, y.id = e.id ∧ y.cfg = e.cfg) ∨
      ∃ request epochDraws nonceDraws, a = .createSession request epochDraws nonceDraws)
    (fun x => ∀ d, x.2 = .sent d → ∃ y ∈ T.sessions, y.id = x.1 ∧ Acceptable a y.cfg d) where
  called := by
    intro e op hold hask
    refine ⟨hold, ?_⟩
    rintro x hx d rfl
    obtain ⟨l, hout, -, -, hnumbered⟩ := (hask.emits (io e.id) now).sent
    have hd : d ∈ l := by
      have hmem := mem_sentOf.mpr hx
      rw [hout] at hmem
      exact hmem
    rcases hold with ⟨y, hy, hid, hcfg⟩ | ⟨request, epochDraws, nonceDraws, rfl⟩
    · refine ⟨y, hy, hid, ?_⟩
      rw [hcfg]
      exact numbered_acceptable hask hnumbered hd
    · cases op with
      | startPunch => cases hask
      | poll => cases hask
      | receive p =>
        obtain ⟨-, datagram, ha, -⟩ := hask
        cases ha
      | sendData inner => cases hask.1
      | sendRoster payload => cases hask.1
      | closeByUser =>
        rcases hask with ha | ha
        · cases ha
        · cases ha
  counted e c h := h
  registered e h := h
  created U request epoch nonce ha := by
    obtain ⟨epochDraws, nonceDraws, ha⟩ := ha
    exact .inr ⟨request, epochDraws, nonceDraws, ha⟩

theorem perform_acceptable (hi : Invariant T) (hw : Written T.roster) (a : Action) :
    ∀ x ∈ (T.perform io a now).out, ∀ d, x.2 = .sent d → ∃ y ∈ T.sessions, y.id = x.1 ∧
      Acceptable a y.cfg d :=
  ((emitted_rule T a).perform hi hw fun e he => .inl ⟨e, he, rfl, rfl⟩).reports

/-! ## The numbers -/

/-- The datagrams of one session among the calls that sessions make to the outside. -/
def sentBy (id : SessionId) (out : List (SessionId × Event)) : List Sent :=
  sentOf ((out.filter (·.1 = id)).map (·.2))

/-- The datagrams that one session sends over the run, in their order. -/
def sentIn (id : SessionId) (h : List Turn) : List Sent := h.flatMap fun x => sentBy id x.after.out

theorem sentBy_append (out out' : List (SessionId × Event)) :
    sentBy id (out ++ out') = sentBy id out ++ sentBy id out' := by
  unfold sentBy
  rw [List.filter_append, List.map_append, sentOf_append]

theorem sentBy_own (events : List Event) (id k : SessionId) :
    sentBy id (events.map fun x => (k, x)) = if k = id then sentOf events else [] := by
  unfold sentBy
  rw [List.filter_map]
  by_cases hk : k = id
  · simp [hk, Function.comp_def]
  · simp [hk, Function.comp_def]

/-- Numbered from zero: what a session has sent since it was made. -/
def Counted (l : List Sent) : Prop := ∀ (i : ℕ) (d : Sent), l[i]? = some d →
    d.fields.sequence = BitVec.ofNat 32 i

/-- With `past` sent before the turn: each session goes on with its number, one not yet made has
sent nothing. -/
structure Numbers (past : SessionId → List Sent) (T : Tunnel) : Prop where
  counted : ∀ id, Counted (past id ++ sentBy id T.out)
  next : ∀ e ∈ T.sessions,
    e.session.nextSeq = BitVec.ofNat 32 (past e.id ++ sentBy e.id T.out).length
  unborn : ∀ id, T.nextId ≤ id → past id ++ sentBy id T.out = []

theorem Counted.append {C : SessionConfig} {l l' : List Sent} {first : U32} (h : Counted l)
    (hfirst : first = BitVec.ofNat 32 l.length) (hn : Numbered C op first l') :
    Counted (l ++ l') := by
  intro i d hd
  by_cases hi : i < l.length
  · rw [List.getElem?_append_left hi] at hd
    exact h i d hd
  · rw [List.getElem?_append_right (not_lt.mp hi)] at hd
    rw [(hn _ d hd).1, hfirst, ← BitVec.ofNat_add, Nat.add_sub_cancel' (not_lt.mp hi)]

theorem Numbers.same (h : Numbers past T) {g : Entry → Entry} (hg : ∀ e, (g e).id = e.id)
    (hseq : ∀ e, (g e).session.nextSeq = e.session.nextSeq)
    (hsessions : T'.sessions ⊆ T.sessions.map g) (hnext : T'.nextId = T.nextId)
    (hout : T'.out = T.out) : Numbers past T' := by
  refine ⟨fun id => hout ▸ h.counted id, ?_, fun id hid => hout ▸ h.unborn id (hnext ▸ hid)⟩
  intro y hy
  obtain ⟨x, hx, rfl⟩ := List.mem_map.mp (hsessions hy)
  rw [hseq, hg, hout]
  exact h.next x hx

theorem Part.numbers (hpart : Part io now a T T') (hi : Invariant T) (h : Numbers past T) :
    Numbers past T' := by
  cases hpart with
  | called e op hfind hask _ =>
    obtain ⟨he, -⟩ := find_some hfind
    have hc := call_called io op now hfind
    obtain ⟨l, hout, hseq, -, hnumbered⟩ := (hask.emits (io e.id) now).sent
    have hsent : sentOf (step e.cfg (io e.id) e.session op now).out = l := hout
    have hby : ∀ id, past id ++ sentBy id (T.call io e.cfg.peerId op now).out =
        (past id ++ sentBy id T.out) ++ if e.id = id then l else [] := by
      intro id
      rw [hc.out, sentBy_append, sentBy_own, hsent, List.append_assoc]
    refine ⟨?_, ?_, ?_⟩
    · intro id
      rw [hby]
      by_cases hid : e.id = id
      · rw [if_pos hid]
        exact (h.counted id).append (hid ▸ h.next e he) hnumbered
      · rw [if_neg hid, List.append_nil]
        exact h.counted id
    · intro y hy
      rw [hby]
      rcases (hc.mem hi he).mp hy with rfl | ⟨hy, hne⟩
      · rw [if_pos rfl, List.length_append, BitVec.ofNat_add, ← h.next e he]
        exact hseq
      · have hid : e.id ≠ y.id := fun hsame => hne (hi.same_id hy he hsame.symm)
        rw [if_neg hid, List.append_nil]
        exact h.next y hy
    · intro id hid
      rw [hc.nextId] at hid
      have hother : e.id ≠ id := Nat.ne_of_lt ((hi.fresh e he).trans_le hid)
      rw [hby, if_neg hother, List.append_nil]
      exact h.unborn id hid
  | counted c =>
    refine h.same (g := fun e => e) (fun _ => rfl) (fun _ => rfl) ?_ rfl rfl
    rw [List.map_id']
    exact fun _ hx => hx
  | countedFor k c =>
    refine h.same
      (g := fun e => if e.cfg.peerId = k then { e with session := e.session.count c } else e) ?_ ?_
      (fun _ hx => hx) rfl rfl
    · intro e
      split_ifs <;> rfl
    · intro e
      split_ifs <;> rfl
  | erased e _ _ =>
    refine h.same (g := fun e => e) (fun _ => rfl) (fun _ => rfl) ?_ rfl rfl
    intro x hx
    rw [List.map_id']
    exact (List.mem_filter.mp hx).1
  | registered =>
    refine h.same (g := fun e => if e.session.active then
      e else { e with epochRetired := true, nonceRetired := true })
      ?_ ?_ (fun _ hx => hx) rfl rfl
    · intro e
      split_ifs <;> rfl
    · intro e
      split_ifs <;> rfl
  | inserted request epoch nonce _ _ =>
    refine ⟨h.counted, ?_, fun id hid => h.unborn id (Nat.le_of_succ_le hid)⟩
    intro y hy
    rcases List.mem_cons.mp ((List.perm_orderedInsert _ _ _).mem_iff.mp hy) with rfl | hy
    · have hnone := h.unborn T.nextId le_rfl
      change _ = BitVec.ofNat 32 (past T.nextId ++ sentBy T.nextId T.out).length
      rw [hnone]
      rfl
    · exact h.next y (List.mem_filter.mp hy).1
  | settings roster localVip _ =>
    refine h.same (g := fun e => e) (fun _ => rfl) (fun _ => rfl) ?_ rfl rfl
    rw [List.map_id']
    exact fun _ hx => hx

theorem sentIn_append (id : SessionId) (h : List Turn) (x : Turn) :
    sentIn id (h ++ [x]) = sentIn id h ++ sentBy id x.after.out := by
  simp [sentIn]

theorem run_numbers {h : List Turn} (hr : Run io h t T) :
    Numbers (fun id => sentIn id h) { T with out := [] } := by
  induction hr with
  | start t =>
    constructor
    · intro id i d hd
      cases hd
    · intro e he
      cases he
    · intro id _
      rfl
  | @turn h t T a now hr _ ih =>
    have hi := run_invariant hr
    have hparts : Parts io now a { T with out := [] } (T.perform io a now) :=
      perform_parts hi (written_rule.run_roster hr) a
    have hnumbers : Numbers (fun id => sentIn id h) (T.perform io a now) := by
      generalize T.perform io a now = T' at hparts ⊢
      induction hparts with
      | refl => exact ih
      | tail hprev hlast ih => exact hlast.numbers (Parts.invariant hprev hi.cleared) ih
    have hsum : ∀ id, sentIn id (h ++ [⟨now, a, T, T.perform io a now⟩]) ++ sentBy id [] =
        sentIn id h ++ sentBy id (T.perform io a now).out := by
      intro id
      rw [sentIn_append]
      exact List.append_nil _
    constructor
    · intro id
      change Counted (_ ++ sentBy id [])
      rw [hsum]
      exact hnumbers.counted id
    · intro e he
      change _ = BitVec.ofNat 32 (_ ++ sentBy e.id []).length
      rw [hsum]
      exact hnumbers.next e he
    · intro id hid
      change _ ++ sentBy id [] = []
      rw [hsum]
      exact hnumbers.unborn id hid

/-- Every datagram of a run is acceptable to whoever gets it from a good source; the attempts of
each session are numbered from zero; and an inner packet makes a session send only where it may be
sent. -/
theorem emissions_acceptable {h : List Turn} (hr : Run io h t T) :
    (∀ x ∈ h, ∀ id d, (id, Event.sent d) ∈ x.after.out →
      ∃ e ∈ x.before.sessions, e.id = id ∧ Acceptable x.action e.cfg d) ∧
    (∀ id, Counted (sentIn id h)) ∧
    ∀ x ∈ h, ∀ inner, x.action = .sendData inner → (∃ id d, (id, Event.sent d) ∈ x.after.out) →
      ∃ e, Sendable x.before inner e := by
  refine ⟨?_, ?_, ?_⟩
  · intro x hx id d hd
    obtain ⟨h₀, t₀, hbefore, -, hafter⟩ := run_turn hr hx
    rw [hafter] at hd
    exact perform_acceptable (run_invariant hbefore)
      (written_rule.run_roster hbefore) x.action _ hd d rfl
  · intro id
    have hcounted := (run_numbers hr).counted id
    change Counted (_ ++ []) at hcounted
    rw [List.append_nil] at hcounted
    exact hcounted
  · rintro x hx inner haction ⟨id, d, hd⟩
    obtain ⟨h₀, t₀, hbefore, -, hafter⟩ := run_turn hr hx
    rw [hafter, haction] at hd
    change (id, Event.sent d) ∈
      (Tunnel.sendData io { x.before with out := [] } inner x.now).2.out at hd
    rcases sendData_sendable io { x.before with out := [] } inner x.now with
      ⟨c, heq⟩ | ⟨k, c, heq⟩ | ⟨outcome, e, hsendable, -⟩
    · rw [heq] at hd
      cases hd
    · rw [heq] at hd
      cases hd
    · exact ⟨e, hsendable.min, hsendable.max, hsendable.ipv4, hsendable.source, hsendable.entry,
        hsendable.route,
        hsendable.connected⟩

/-- The first peer comes and is called three times. -/
def punchCalls : List (Action × Millis) :=
  [(.createSession (roomRequest 2 0x0A640002) [7] [nonceOf 1], 0), (.startPunch 2, 0),
    (.runTimers, 5000), (.runTimers, 9000)]

theorem punch_numbers :
    (sentIn 0 (play roomIo [] {} punchCalls).1).map (·.fields.sequence) = [0, 1, 2] ∧
    Counted (sentIn 0 (play roomIo [] {} punchCalls).1) := by
  have hrun : Run roomIo (play roomIo [] {} punchCalls).1 9000 (play roomIo [] {} punchCalls).2 :=
    play_run punchCalls (.start 0) (by simp [InOrder, punchCalls])
  exact ⟨by decide +kernel, (emissions_acceptable hrun).2.1 0⟩

end Sangtachi.Tunnel
