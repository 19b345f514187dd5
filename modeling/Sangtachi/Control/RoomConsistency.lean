import Mathlib.Algebra.GroupWithZero.Nat
import Sangtachi.Control.Reports

/-! # Every reachable room is consistent

Any number of requests with any bodies, interleaved call by call. -/
namespace Sangtachi.Control

open AtomicPrograms UniqueIndex

abbrev ServerWorld := World store Service.Request OpError Fields

abbrev ServerTask := Task store Service.Request OpError Fields

abbrev ServerSteps (adm : Shared → Call → Reading → Prop) : ServerWorld → ServerWorld → Prop :=
  Steps adm Service.dispatch

def initialWorld (clock : ℤ) : ServerWorld := ⟨⟨.empty, clock, []⟩, []⟩

/-- Reached from an empty table, with the readings that `adm` admits. -/
def Reachable (adm : Shared → Call → Reading → Prop) (w : ServerWorld) : Prop :=
  ∃ clock, ServerSteps adm (initialWorld clock) w

/-- The caller that a body names, or anyone if it names none. -/
def CalledBy (body : List (Text × Json)) (caller : PeerId) : Prop :=
  ∀ id, uint32 body "peer_id" peerId_short = .ok id → id = caller

structure Answer (req : Service.Request) (past : Past) (s : Shared)
    (result : Except OpError Fields) : Prop where
  create : ∀ body, req.op = "create_room".toList → req.body = .obj body →
    ∃ issued, result = issued.map Fields.issued ∧ CreateOutcome body past s issued
  join : ∀ body, req.op = "join_room".toList → req.body = .obj body →
    ∃ issued, result = issued.map Fields.issued ∧ JoinOutcome body past s issued
  malformed : (∀ body, req.body ≠ .obj body) →
    past = [] ∧ ∃ e, result = .error e ∧ (e.code = .badRequest ∨ e.code = .unknownOp)
  told : ∀ body caller, req.body = .obj body → CalledBy body caller →
    ∀ fields, result = .ok fields → Told body caller past fields

theorem holds_told {s : Shared} {nonce : Hex32} {i : Issued} (hc : Consistent s)
    (h : Holds s nonce i) (body : List (Text × Json)) (caller : PeerId) (past : Past) :
    Told body caller past (.issued i) := by
  obtain ⟨hexpires, p, hp, -, hip, -⟩ := h
  have hkey : p.peerId = i.peerId := hc.keyed _ p hp
  exact ⟨⟨hkey ▸ hc.nonzero _ p hp, hip ▸ hc.address _ p hp, hexpires⟩, trivial⟩

theorem safe_issued {p : Handler Issued} {P : Past → Shared → Except OpError Issued → Prop}
    {Q : Past → Shared → Except OpError Fields → Prop} {past : Past} {s : Shared}
    (hc : Consistent s) (h : rooms.Safe P p past s)
    (hPQ : ∀ past' s' result, Consistent s' → P past' s' result → Q past' s' (result.map .issued)) :
    rooms.Safe Q (p >>= fun issued => return .issued issued) past s := by
  refine Discipline.safe_bind (h.weaken hc ?_)
  intro past' s' result hc' _ hP
  cases result with
  | ok i => exact hPQ past' s' (.ok i) hc' hP
  | error e => exact hPQ past' s' (.error e) hc' hP

theorem safe_fit {req : Service.Request} {run : List (Text × Json) → Handler Fields}
    {body : List (Text × Json)} {s : Shared} (hbody : req.body = .obj body)
    (hcreate : req.op ≠ "create_room".toList)
    (hjoin : req.op ≠ "join_room".toList) (hc : Consistent s)
    (h : ∀ caller, CalledBy body caller → rooms.Safe (FitAnswer body caller) (run body) [] s) :
    rooms.Safe (Answer req) (run body) [] s := by
  have hcaller : Nonempty { caller // CalledBy body caller } := by
    unfold CalledBy
    generalize uint32 body "peer_id" = named
    cases named with
    | ok id => exact ⟨id, fun id' h => (Except.ok.inj h).symm⟩
    | error e => exact ⟨0, fun id' h => by cases h⟩
  have hall := Discipline.safe_forall fun caller : { caller // CalledBy body caller } =>
    h caller.1 caller.2
  refine hall.weaken hc ?_
  intro past' s' result _ _ hfit
  refine ⟨fun _ h => absurd h hcreate, fun _ h => absurd h hjoin,
    fun h => absurd hbody (h body), ?_⟩
  intro body' caller hbody' hcaller' fields hfields
  obtain rfl : body = body' := by simpa [hbody] using hbody'
  have hf := hfit ⟨caller, hcaller'⟩
  rwa [hfields] at hf

theorem answer_error {req : Service.Request} {s : Shared} {e : OpError}
    (hcode : e.code = .badRequest ∨ e.code = .unknownOp)
    (hop : req.op = "create_room".toList ∨ req.op = "join_room".toList →
      ∀ body, req.body ≠ .obj body) :
    Answer req [] s (.error e) where
  malformed _ := ⟨rfl, e, rfl, hcode⟩
  create body h hbody := absurd hbody (hop (.inl h) body)
  join body h hbody := absurd hbody (hop (.inr h) body)
  told _ _ _ _ := by
    rintro _ ⟨⟩

theorem dispatch_safe (req : Service.Request) (s : Shared) (hc : Consistent s) :
    rooms.Safe (Answer req) (Service.dispatch req) [] s := by
  unfold Service.dispatch
  by_cases hcreate : req.op = "create_room".toList
  · cases hbody : req.body with
    | obj body =>
      simp only [hcreate, if_true]
      refine safe_issued hc (createRoom_safe body s) ?_
      intro past' s' result hc' h
      refine ⟨?_, ?_, ?_, ?_⟩
      · intro body' _ hbody'
        obtain rfl : body = body' := by simpa [hbody] using hbody'
        exact ⟨result, rfl, h⟩
      · intro _ hjoin _
        rw [hcreate] at hjoin
        exact absurd hjoin (by decide)
      · exact fun h => absurd hbody (h body)
      · intro body' caller _ _ fields hfields
        cases result with
        | error e => cases hfields
        | ok i =>
          obtain rfl : Fields.issued i = fields := Except.ok.inj hfields
          rcases h with ⟨nonce, name, -, hanswer⟩ | ⟨-, err, herr, -⟩
          · exact holds_told hc' (hanswer.success i rfl) body' caller past'
          · cases herr
    | _ =>
      simp only [hcreate, if_true]
      exact answer_error (.inl rfl) fun _ body h => by simp [hbody] at h
  by_cases hjoin : req.op = "join_room".toList
  · cases hbody : req.body with
    | obj body =>
      simp only [hjoin, if_true]
      rw [if_neg (by decide)]
      refine safe_issued hc (joinRoom_safe body s) ?_
      intro past' s' result hc' h
      refine ⟨fun _ h => absurd h hcreate, ?_, ?_, ?_⟩
      · intro body' _ hbody'
        obtain rfl : body = body' := by simpa [hbody] using hbody'
        exact ⟨result, rfl, h⟩
      · exact fun h => absurd hbody (h body)
      · intro body' caller _ _ fields hfields
        cases result with
        | error e => cases hfields
        | ok i =>
          obtain rfl : Fields.issued i = fields := Except.ok.inj hfields
          rcases h with ⟨roomId, nonce, name, -, hanswer⟩ | ⟨-, err, herr, -⟩
          · exact holds_told hc' (hanswer.success i rfl).2.1 body' caller past'
          · cases herr
    | _ =>
      simp only [hjoin, if_true]
      rw [if_neg (by decide)]
      exact answer_error (.inl rfl) fun _ body h => by simp [hbody] at h
  have herror : ∀ e : OpError, e.code = .badRequest ∨ e.code = .unknownOp →
      rooms.Safe (Answer req) (Prog.fail e : Handler Fields) [] s := fun e he =>
    answer_error he fun h => (h.elim hcreate hjoin).elim
  by_cases hregister : req.op = "register_candidate".toList
  · cases hbody : req.body with
    | obj body =>
      rw [if_neg hcreate, if_neg hjoin, if_pos hregister]
      exact safe_fit hbody hcreate hjoin hc fun caller _ => registerCandidate_safe body caller
    | _ =>
      rw [if_neg hcreate, if_neg hjoin, if_pos hregister]
      exact herror _ (.inl rfl)
  by_cases hpeers : req.op = "get_peers".toList
  · cases hbody : req.body with
    | obj body =>
      rw [if_neg hcreate, if_neg hjoin, if_neg hregister, if_pos hpeers]
      exact safe_fit hbody hcreate hjoin hc fun caller hcaller => getPeers_safe hcaller
    | _ =>
      rw [if_neg hcreate, if_neg hjoin, if_neg hregister, if_pos hpeers]
      exact herror _ (.inl rfl)
  by_cases hreport : req.op = "host_report".toList
  · cases hbody : req.body with
    | obj body =>
      rw [if_neg hcreate, if_neg hjoin, if_neg hregister, if_neg hpeers, if_pos hreport]
      exact safe_fit hbody hcreate hjoin hc fun caller hcaller => hostReport_safe hcaller
    | _ =>
      rw [if_neg hcreate, if_neg hjoin, if_neg hregister, if_neg hpeers, if_pos hreport]
      exact herror _ (.inl rfl)
  rw [if_neg hcreate, if_neg hjoin, if_neg hregister, if_neg hpeers, if_neg hreport]
  exact herror _ (.inr rfl)

theorem initial_sound (clock : ℤ) : rooms.WorldSound Answer (initialWorld clock) where
  inv := initial_consistent clock
  tasks _ h := absurd h List.not_mem_nil

theorem reachable_sound {w : ServerWorld} (h : Reachable NeverReused w) :
    rooms.WorldSound Answer w := by
  obtain ⟨clock, hsteps⟩ := h
  exact (Discipline.steps_sound dispatch_safe (initial_sound clock) hsteps).1

theorem Reachable.later {adm : Shared → Call → Reading → Prop} {w w' : ServerWorld}
    (h : Reachable adm w) (hsteps : ServerSteps adm w w') :
    Reachable adm w' := by
  obtain ⟨clock, hinit⟩ := h
  exact ⟨clock, hinit.trans hsteps⟩

theorem Reachable.consistent {w : ServerWorld} (h : Reachable NeverReused w) : Consistent w.state :=
  (reachable_sound h).inv

theorem Reachable.grows {w w' : ServerWorld} (h : Reachable NeverReused w)
    (hsteps : ServerSteps NeverReused w w') :
    Grows w.state w'.state :=
  (Discipline.steps_sound dispatch_safe (reachable_sound h) hsteps).2

/-! ## One room -/

/-- The items of one room, as they are stored. -/
structure RoomConsistent (t : Table) (roomId : RoomId) : Prop where
  peerKey : ∀ id p, t.peers.lookup (roomId, id) = some p → p.peerId = id
  vipOfPeer : ∀ id p, t.peers.lookup (roomId, id) = some p →
    ∃ claim, t.vips.lookup (roomId, p.virtualIp) = some claim ∧ claim.peerId = id
  nameOfPeer : ∀ id p, t.peers.lookup (roomId, id) = some p →
    ∃ claim, t.names.lookup (roomId, nameKey p.name) = some claim ∧ claim.peerId = id
  nonceOfPeer : ∀ id p, t.peers.lookup (roomId, id) = some p →
    ∃ item, t.nonces.lookup p.clientNonce = some item ∧ item.roomId = roomId ∧ item.peerId = id
  peerOfVip : ∀ ip claim, t.vips.lookup (roomId, ip) = some claim →
    ∃ p, t.peers.lookup (roomId, claim.peerId) = some p ∧ p.virtualIp = ip
  peerOfName : ∀ key claim, t.names.lookup (roomId, key) = some claim →
    ∃ p, t.peers.lookup (roomId, claim.peerId) = some p ∧ nameKey p.name = key
  peerOfNonce : ∀ nonce item, t.nonces.lookup nonce = some item → item.roomId = roomId →
    ∃ p, t.peers.lookup (roomId, item.peerId) = some p ∧ p.clientNonce = nonce
  distinct : ∀ id id' p p', t.peers.lookup (roomId, id) = some p →
    t.peers.lookup (roomId, id') = some p' →
    id ≠ id' → p.virtualIp ≠ p'.virtualIp ∧ nameKey p.name ≠ nameKey p'.name
  short : (queryRoom t roomId).peers.length ≤ MAX_PEERS
  housed : ∀ id p, t.peers.lookup (roomId, id) = some p → ∃ room, t.rooms.lookup roomId = some room
  hosted : ∀ room, t.rooms.lookup roomId = some room →
    ∃ p, t.peers.lookup (roomId, room.hostPeerId) = some p ∧ p.virtualIp = "10.100.0.1".toList
  paired : ∀ key pair, t.pairs.lookup (roomId, key) = some pair →
    ∃ room other host peer, t.rooms.lookup roomId = some room ∧ other ≠ room.hostPeerId ∧
      key = pairSk room.hostPeerId other ∧
      t.peers.lookup (roomId, room.hostPeerId) = some host ∧ host.candidateList ≠ [] ∧
      t.peers.lookup (roomId, other) = some peer ∧ peer.candidateList ≠ []

theorem vipOwner_iff {t : Table} {i : RoomId × Text} {k : RoomId × PeerId} :
    t.vipOwner i = some k ↔ ∃ claim, t.vips.lookup i = some claim ∧ (i.1, claim.peerId) = k := by
  simp [Table.vipOwner]

theorem nameOwner_iff {t : Table} {i : RoomId × Text} {k : RoomId × PeerId} :
    t.nameOwner i = some k ↔ ∃ claim, t.names.lookup i = some claim ∧ (i.1, claim.peerId) = k := by
  simp [Table.nameOwner]

theorem nonceOwner_iff {t : Table} {nonce : Hex32} {k : RoomId × PeerId} :
    t.nonceOwner nonce = some k ↔ ∃ item, t.nonces.lookup nonce = some item ∧
    (item.roomId, item.peerId) = k := by
  simp [Table.nonceOwner]

theorem Consistent.room {s : Shared} (hc : Consistent s) (roomId : RoomId) :
    RoomConsistent s.table roomId where
  peerKey id p hp := hc.keyed (roomId, id) p hp
  vipOfPeer id p hp := by
    obtain ⟨claim, hclaim, he⟩ := vipOwner_iff.mp (hc.vips.entry_of_record (k := (roomId, id)) hp)
    exact ⟨claim, hclaim, (Prod.mk.inj he).2⟩
  nameOfPeer id p hp := by
    obtain ⟨claim, hclaim, he⟩ := nameOwner_iff.mp (hc.names.entry_of_record (k := (roomId, id)) hp)
    exact ⟨claim, hclaim, (Prod.mk.inj he).2⟩
  nonceOfPeer id p hp := by
    obtain ⟨item, hitem, he⟩ := nonceOwner_iff.mp (hc.nonces.entry_of_record (k := (roomId, id)) hp)
    exact ⟨item, hitem, Prod.mk.inj he⟩
  peerOfVip ip claim hclaim := by
    obtain ⟨p, hp, he⟩ := (hc.vips _ _).mp (vipOwner_iff.mpr ⟨claim, hclaim, rfl⟩)
    exact ⟨p, hp, (Prod.mk.inj he).2⟩
  peerOfName key claim hclaim := by
    obtain ⟨p, hp, he⟩ := (hc.names _ _).mp (nameOwner_iff.mpr ⟨claim, hclaim, rfl⟩)
    exact ⟨p, hp, (Prod.mk.inj he).2⟩
  peerOfNonce nonce item hitem hroom := by
    obtain ⟨p, hp, he⟩ := (hc.nonces _ _).mp (nonceOwner_iff.mpr ⟨item, hitem, rfl⟩)
    exact ⟨p, hroom ▸ hp, he⟩
  distinct id id' p p' hp hp' hne := by
    have hp₁ : s.table.peerAt (roomId, id) = some p := hp
    have hp₂ : s.table.peerAt (roomId, id') = some p' := hp'
    constructor
    · intro he
      have heq := hc.vips.injective hp₁ hp₂ (by simp [vipEntry, he])
      exact hne (Prod.mk.inj heq).2
    · intro he
      have heq := hc.names.injective hp₁ hp₂ (by simp [nameEntry, he])
      exact hne (Prod.mk.inj heq).2
  short := peers_length_le hc roomId
  housed id p hp := Option.isSome_iff_exists.mp (hc.housed (roomId, id) p hp)
  hosted room hroom := hc.hosted roomId room hroom
  paired key pair hpair := by
    obtain ⟨-, room, other, hroom, hne, hkey, hhost, hother⟩ := hc.paired roomId key pair hpair
    obtain ⟨host, hhost, hhostCandidates⟩ := Table.hasCandidates_iff.mp hhost
    obtain ⟨peer, hpeer, hpeerCandidates⟩ := Table.hasCandidates_iff.mp hother
    exact ⟨room, other, host, peer, hroom, hne, hkey, hhost, hhostCandidates, hpeer,
      hpeerCandidates⟩

/-! ## Deleted items -/

/-- Some item of the room is the peer's own or points to it. -/
def Table.Mentions (t : Table) (roomId : RoomId) (id : PeerId) : Prop :=
  (t.peers.lookup (roomId, id)).isSome ∨
  (∃ ip claim, t.vips.lookup (roomId, ip) = some claim ∧ claim.peerId = id) ∨
  (∃ key claim, t.names.lookup (roomId, key) = some claim ∧ claim.peerId = id) ∨
  (∃ nonce item, t.nonces.lookup nonce = some item ∧ item.roomId = roomId ∧ item.peerId = id) ∨
  ∃ key pair, t.pairs.lookup (roomId, key) = some pair ∧ (key.1 = id ∨ key.2 = id)

theorem RoomConsistent.mentions {t : Table} {roomId : RoomId} {id : PeerId}
    (h : RoomConsistent t roomId) (hm : t.Mentions roomId id) :
    (t.peers.lookup (roomId, id)).isSome := by
  rcases hm with hp | ⟨ip, claim, hclaim, rfl⟩ | ⟨key, claim, hclaim, rfl⟩ | ⟨nonce, item,
    hitem, hroom, rfl⟩ |
    ⟨key, pair, hpair, hkey⟩
  · exact hp
  · obtain ⟨p, hp, -⟩ := h.peerOfVip ip claim hclaim
    exact Option.isSome_iff_exists.mpr ⟨p, hp⟩
  · obtain ⟨p, hp, -⟩ := h.peerOfName key claim hclaim
    exact Option.isSome_iff_exists.mpr ⟨p, hp⟩
  · obtain ⟨p, hp, -⟩ := h.peerOfNonce nonce item hitem hroom
    exact Option.isSome_iff_exists.mpr ⟨p, hp⟩
  · obtain ⟨room, other, host, peer, -, -, rfl, hhost, -, hpeer, -⟩ := h.paired key pair hpair
    rcases pairSk_mem hkey with rfl | rfl
    · exact Option.isSome_iff_exists.mpr ⟨host, hhost⟩
    · exact Option.isSome_iff_exists.mpr ⟨peer, hpeer⟩

/-- A peer that has gone stays gone, with everything that points to it. -/
theorem gone_unmentioned {w₁ w₂ w₃ : ServerWorld} (h : Reachable NeverReused w₁)
    (h₁₂ : ServerSteps NeverReused w₁ w₂) (h₂₃ : ServerSteps NeverReused w₂ w₃) {roomId : RoomId}
    {id : PeerId}
    (hpresent : w₁.state.table.Mentions roomId id)
    (habsent : w₂.state.table.peers.lookup (roomId, id) = none) :
    ¬w₃.state.table.Mentions roomId id := by
  intro hm
  have hc₃ := ((h.later h₁₂).later h₂₃).consistent
  obtain ⟨p, hp⟩ := Option.isSome_iff_exists.mp ((h.consistent.room roomId).mentions hpresent)
  obtain ⟨q, hq, hsame⟩ := h.consistent.recorded (roomId, id) p hp
  have hid : q.peerId = id := hsame.peerId.symm.trans (h.consistent.keyed (roomId, id) p hp)
  have hnone := ((h.later h₁₂).grows h₂₃).gone roomId q ((h.grows h₁₂).issued _ hq) (hid ▸ habsent)
  have hsome := (hc₃.room roomId).mentions hm
  rw [hid] at hnone
  rw [show w₃.state.table.peers.lookup (roomId, id) = none from hnone] at hsome
  cases hsome

/-- A pair that has gone stays gone. -/
theorem gone_pair {w₁ w₂ w₃ : ServerWorld} (h : Reachable NeverReused w₁)
    (h₁₂ : ServerSteps NeverReused w₁ w₂) (h₂₃ : ServerSteps NeverReused w₂ w₃) {roomId : RoomId}
    {key : PairKey}
    (hpresent : (w₁.state.table.pairs.lookup (roomId, key)).isSome)
    (habsent : w₂.state.table.pairs.lookup (roomId, key) = none) :
    w₃.state.table.pairs.lookup (roomId, key) = none := by
  obtain ⟨pair, hpair⟩ := Option.isSome_iff_exists.mp hpresent
  rcases (h.grows h₁₂).pairs roomId key pair
    hpair with ⟨pair', hsome, -⟩ | ⟨id, hkey, p, hp, rfl, hgone⟩
  · rw [show w₂.state.table.pairAt (roomId, key) = none from habsent] at hsome
    cases hsome
  · have hnot : ¬w₃.state.table.Mentions roomId p.peerId := by
      have hmention : w₁.state.table.Mentions roomId p.peerId :=
        .inr (.inr (.inr (.inr ⟨key, pair, hpair, hkey.imp Eq.symm Eq.symm⟩)))
      exact gone_unmentioned h h₁₂ h₂₃ hmention hgone
    by_contra hne
    obtain ⟨pair', hpair'⟩ := Option.ne_none_iff_exists'.mp hne
    exact hnot (.inr (.inr (.inr (.inr ⟨key, pair', hpair', hkey.imp Eq.symm Eq.symm⟩))))

/-- Whatever requests interleave, every room is consistent at every moment, and no item that was
deleted comes back. -/
theorem rooms_stay_consistent {w₁ : ServerWorld} (h : Reachable NeverReused w₁) :
    (∀ roomId, RoomConsistent w₁.state.table roomId) ∧
    ∀ w₂ w₃, ServerSteps NeverReused w₁ w₂ → ServerSteps NeverReused w₂ w₃ → ∀ roomId,
      (∀ id, w₁.state.table.Mentions roomId id → w₂.state.table.peers.lookup (roomId, id) = none →
        ¬w₃.state.table.Mentions roomId id) ∧
      ∀ key, (w₁.state.table.pairs.lookup (roomId, key)).isSome →
        w₂.state.table.pairs.lookup (roomId, key) = none →
        w₃.state.table.pairs.lookup (roomId, key) = none :=
  ⟨h.consistent.room, fun _ _ h₁₂ h₂₃ _ =>
    ⟨fun _ => gone_unmentioned h h₁₂ h₂₃, fun _ => gone_pair h h₁₂ h₂₃⟩⟩

/-! ## A run: a room with two players, one of whom leaves -/

instance decidableNeverReused (s : Shared) (c : Call) (r : Reading) :
    Decidable (NeverReused s c r) :=
  match c with
  | .joinRoom roomId _ peerId .. =>
    inferInstanceAs (Decidable ((s.table.peers.lookup (roomId, peerId)).isSome ∨
      ∀ p ∈ s.issued, ¬(p.1 = roomId ∧ p.2.peerId = peerId)))
  | .nowMs | .monoNs | .bootId | .newPeerId | .newPeerToken | .newRoomId | .getNonce _ | .getRoom _
  | .queryRoom _ | .createRoom .. | .registerCandidates .. | .releasePeer .. | .reclaimPeer ..
  | .confirmPair .. | .renewRoom .. | .renewItem .. => .isTrue trivial

/-- Any reading, also one that draws the id of a peer that has gone. -/
def AnyReading (_ : Shared) (_ : Call) (_ : Reading) : Prop := True

instance decidableAnyReading (s : Shared) (c : Call) (r : Reading) : Decidable (AnyReading s c r) :=
  .isTrue trivial

theorem eight_ne_zero : 8 ≠ 0 := by decide

instance sampleDraws : NeZero 8 := ⟨eight_ne_zero⟩

/-- A draw of `drawn + 1` for the peer id and of the first letters for the rest. -/
def sampleReading (wallMs : ℤ) (drawn : Fin 8) : Reading where
  wallMs := wallMs
  monoNs := wallMs * 1000000
  bootId := "boot".toList
  peerId := ⟨⟨drawn.val + 1, by omega⟩, by simp⟩
  tokenDigits _ := ⟨drawn.val, lt_trans drawn.isLt (by decide)⟩
  roomLetters _ := ⟨0, by decide⟩
  conflicts := []

def sampleHex (c : Char) : Json := .str (List.replicate 32 c)

def sampleCreate : Service.Request :=
  ⟨"create_room".toList,
    .obj [("client_nonce".toList, sampleHex 'a'), ("name".toList, .str "Ann".toList)]⟩

def sampleJoinAs (nonce : Char) (name : String) : Service.Request :=
  ⟨"join_room".toList,
    .obj [("client_nonce".toList, sampleHex nonce), ("name".toList, .str name.toList),
    ("room_id".toList, .str "aaaaaa".toList)]⟩

def sampleJoin : Service.Request := sampleJoinAs 'b' "Bob"

def sampleAuth (id : ℤ) (token : Char) : List (Text × Json) :=
  [("peer_id".toList, .int id), ("peer_token".toList, sampleHex token),
    ("room_id".toList, .str "AAAAAA".toList)]

def sampleRegister (id : ℤ) (token : Char) : Service.Request :=
  ⟨"register_candidate".toList, .obj (sampleAuth id token ++ [("candidates".toList, .arr [.obj [
    ("ip".toList, .str "192.168.0.7".toList), ("port".toList, .int 40000),
    ("kind".toList, .str "local".toList)]])])⟩

def sampleReport (departed confirm : List Json) : Service.Request :=
  ⟨"host_report".toList, .obj
    (sampleAuth 1 '0' ++ [("departed".toList, .arr departed), ("confirm".toList, .arr confirm)])⟩

def samplePeers : Service.Request := ⟨"get_peers".toList, .obj (sampleAuth 1 '0')⟩

/-- A request followed by some of its calls, all made at one time. -/
def sampleCalls (request : Service.Request) (index calls : ℕ) (wallMs : ℤ) (drawn : Fin 8) :
    List (Action store Service.Request) :=
  .start request :: List.replicate calls (.advance index (sampleReading wallMs drawn))

/-- The host and a player register, and the host confirms their pair. -/
def sampleMeeting : List (Action store Service.Request) :=
  sampleCalls sampleCreate 0 6 0 0 ++ sampleCalls sampleJoin 1 6 1000 1 ++
    sampleCalls (sampleRegister 1 '0') 2 3 2000 0 ++
      sampleCalls (sampleRegister 2 '1') 3 3 3000 0 ++
    sampleCalls (sampleReport [] [.int 2]) 4 6 4000 0

/-- The host reports the player's departure. -/
def sampleDeparture : List (Action store Service.Request) :=
  sampleCalls (sampleReport [.int 2] []) 5 3 5000 0

def sampleMet : ServerWorld :=
  (play NeverReused Service.dispatch sampleMeeting (initialWorld 0)).get (by decide +kernel)

def sampleLeft : ServerWorld :=
  (play NeverReused Service.dispatch sampleDeparture sampleMet).get (by decide +kernel)

theorem sampleMet_reachable : Reachable NeverReused sampleMet :=
  ⟨0, steps_of_play (Option.some_get _).symm⟩

theorem sampleLeft_steps : ServerSteps NeverReused sampleMet sampleLeft :=
  steps_of_play (Option.some_get _).symm

def sampleRoom : RoomId := ⟨"AAAAAA".toList, by decide, by decide⟩

theorem sample_stays_consistent :
    (sampleMet.state.table.pairs.lookup (sampleRoom, (1, 2))).isSome ∧
    sampleLeft.state.table.pairs.lookup (sampleRoom, (1, 2)) = none ∧
    RoomConsistent sampleMet.state.table sampleRoom ∧
    ∀ w, ServerSteps NeverReused sampleLeft w →
      w.state.table.pairs.lookup (sampleRoom, (1, 2)) = none := by
  have hpair : (sampleMet.state.table.pairs.lookup (sampleRoom, (1, 2))).isSome := by decide +kernel
  have hgone : sampleLeft.state.table.pairs.lookup (sampleRoom, (1, 2)) = none := by decide +kernel
  obtain ⟨hrooms, hgone'⟩ := rooms_stay_consistent sampleMet_reachable
  refine ⟨hpair, hgone, hrooms sampleRoom, ?_⟩
  intro w hw
  exact (hgone' sampleLeft w sampleLeft_steps hw sampleRoom).2 (1, 2) hpair hgone

end Sangtachi.Control
