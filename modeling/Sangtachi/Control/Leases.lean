import Sangtachi.Control.Expiry

/-! # Leases of overlapping requests

A request reads the clock once and writes what it makes of that reading many calls later. The
calls of every request are told by the calls it made before them: which clock reading and which
room a written expiry comes from. -/
namespace Sangtachi.Control

open AtomicPrograms

def LEASE_MS : ℤ := ROOM_LEASE_S * 1000

/-- The call read the room's item with this expiry. -/
def SawRoom (e : Event store) (roomId : RoomId) (expiry : ℤ) : Prop :=
  (e.call = .getRoom roomId ∨ e.call = .queryRoom roomId) ∧
    ∃ room, e.before.table.rooms.lookup roomId = some room ∧ room.expiresAtMs = expiry

/-- The call renewed the room's item with the lease that begins at `now`. -/
def Renewed (e : Event store) (roomId : RoomId) (now : ℤ) : Prop :=
  e.call = .renewRoom roomId now (now + LEASE_MS) ∧ e.before.table.roomOpen roomId now = true

def Sourced (past : Past) : Call → Prop
  | .createRoom _ _ _ _ now _ => ownNow past = some now
  | .joinRoom roomId _ _ _ _ _ expires _ => ∃ e ∈ past, SawRoom e roomId expires
  | .confirmPair roomId _ _ _ _ _ expires => ∃ e ∈ past, SawRoom e roomId expires
  | .renewRoom _ now expires => ownNow past = some now ∧ expires = now + LEASE_MS
  | .renewItem roomId _ ttl => ∃ now, ownNow past = some now ∧ ttl = ttlFor (now + LEASE_MS) ∧
      ∃ e ∈ past, Renewed e roomId now
  | _ => True

/-- A call that neither makes an item nor renews one. -/
def Call.Plain : Call → Prop
  | .createRoom .. | .joinRoom .. | .confirmPair .. | .renewRoom .. | .renewItem .. => False
  | _ => True

theorem Call.Plain.sourced {c : Call} (h : c.Plain) (past : Past) : Sourced past c := by
  cases c <;> first | exact h.elim | trivial

/-- A program that makes plain calls only. -/
def Plain {α : Type} (p : Handler α) : Prop :=
  ∀ past, Obeys (M := store) (fun _ c => c.Plain) (fun _ _ => True) p past

section Plain

variable {α β : Type}

theorem plain_bind {p : Handler α} {f : α → Handler β} (h : Plain p) (hf : ∀ a, Plain (f a)) :
    Plain (p >>= f) := by
  intro past
  apply obeys_bind
  exact (h past).weaken (fun _ _ _ hc => hc) fun past' a _ _ => hf a past'

theorem plain_done (a : α) : Plain (.done a : Handler α) := fun _ => trivial

theorem plain_fail (e : OpError) : Plain (.fail e : Handler α) := fun _ => trivial

theorem plain_ofExcept (x : Except OpError α) : Plain (Prog.ofExcept x : Handler α) := by
  cases x with
  | ok a => exact plain_done a
  | error e => exact plain_fail e

theorem plain_call {c : Call} (h : c.Plain) : Plain (.call c .done : Handler (Reply c)) :=
  fun _ => ⟨h, fun _ _ => trivial⟩

theorem Plain.then {p : Handler α} {Q : Past → α → Prop} (h : Plain p) {past : Past}
    (hQ : ∀ past' a, past <+: past' → Q past' a) : Obeys Sourced Q p past :=
  (h past).weaken (fun past' _ _ hc => hc.sourced past') fun past' a hle _ => hQ past' a hle

theorem obeys_plain_bind {p : Handler α} {f : α → Handler β} {Q : Past → β → Prop}
    (h : Plain p) {past : Past} (hf : ∀ past' a, past <+: past' → Obeys Sourced Q (f a) past') :
    Obeys Sourced Q (p >>= f) past :=
  obeys_bind (h.then hf)

theorem obeys_ofExcept_bind {x : Except OpError α} {f : α → Handler β}
    {Q : Past → β → Prop} {past : Past} (hf : ∀ a, x = .ok a → Obeys Sourced Q (f a) past) :
    Obeys Sourced Q (Prog.ofExcept x >>= f) past := by
  cases x with
  | ok a => exact hf a rfl
  | error e => trivial

end Plain

/-! ## The calls of each operation -/

theorem plain_rereadNonce (nonce : Hex32) : Plain (Service.rereadNonce nonce) := by
  apply plain_bind (plain_call (by exact trivial))
  intro found
  cases found with
  | none => exact plain_fail _
  | some found => exact plain_done _

theorem plain_replay (found : NonceItem) (now : ℤ) : Plain (Service.replay found now) := by
  apply plain_bind (plain_call (by exact trivial))
  intro view
  apply plain_bind (plain_ofExcept _)
  intro room
  cases view.peer found.peerId with
  | none => exact plain_fail _
  | some peer => exact plain_done _

theorem plain_replayJoin (found : NonceItem) (roomId : RoomId) (now : ℤ) :
    Plain (Service.replayJoin found roomId now) := by
  unfold Service.replayJoin
  split
  · exact plain_fail _
  · exact plain_replay found now

theorem plain_elements (view : RoomView) (caller : PeerId) (others : List PeerItem) :
    Plain (Service.elements view caller others) := by
  apply plain_bind (plain_call (by exact trivial))
  intro boot
  apply plain_bind (plain_call (by exact trivial))
  intro mono
  apply plain_bind (plain_call (by exact trivial))
  intro wall
  exact plain_done _

theorem plain_registerCandidate (body : List (Text × Json)) :
    Plain (Service.registerCandidate body) := by
  unfold Service.registerCandidate
  apply plain_bind (plain_ofExcept _)
  intro peerId
  apply plain_bind (plain_ofExcept _)
  intro token
  apply plain_bind (plain_ofExcept _)
  rintro ⟨stored, rejected⟩
  apply plain_bind (plain_ofExcept _)
  intro roomId
  apply plain_bind (plain_call (by exact trivial))
  intro now
  apply plain_bind (plain_call (by exact trivial))
  intro view
  apply plain_bind (plain_ofExcept _)
  intro _
  apply plain_bind (plain_ofExcept _)
  intro _
  apply plain_bind (plain_call (by exact trivial))
  intro registered
  cases registered with
  | false => exact plain_fail _
  | true => exact plain_done _

theorem plain_getPeers (body : List (Text × Json)) : Plain (Service.getPeers body) := by
  unfold Service.getPeers
  apply plain_bind (plain_ofExcept _)
  intro peerId
  apply plain_bind (plain_ofExcept _)
  intro token
  apply plain_bind (plain_ofExcept _)
  intro roomId
  apply plain_bind (plain_call (by exact trivial))
  intro now
  apply plain_bind (plain_call (by exact trivial))
  intro view
  apply plain_bind (plain_ofExcept _)
  intro room
  apply plain_bind (plain_ofExcept _)
  intro _
  apply plain_bind (plain_ofExcept _)
  intro others
  apply plain_bind (plain_elements _ _ _)
  intro found
  exact plain_done _

theorem plain_reply {α : Type} {c : Call} (h : c.Plain) (f : Reply c → Except OpError α) :
    Plain (.call c fun reply => .ofExcept (f reply) : Handler α) :=
  fun _ => ⟨h, fun _ _ => plain_ofExcept _ _⟩

theorem plain_releaseDeparted (roomId : RoomId) (view : RoomView) (hostId : PeerId)
    (targets : List PeerId) (removed : Service.Removed) :
    Plain (Service.releaseDeparted roomId view hostId targets removed) := by
  induction targets generalizing removed with
  | nil => exact plain_done _
  | cons target rest ih =>
    unfold Service.releaseDeparted
    split
    · exact ih removed
    · apply plain_bind (plain_ofExcept _)
      intro found
      cases found with
      | none => exact ih removed
      | some found =>
        apply plain_bind (plain_reply (by exact trivial) _)
        intro gone
        cases gone with
        | false => exact ih removed
        | true => exact ih _

theorem plain_reclaim (roomId : RoomId) (hostId : PeerId) (now : ℤ) (skip : List PeerId)
    (view : RoomView) (peers : List PeerItem) (removed : Service.Removed) :
    Plain (Service.reclaim roomId hostId now skip view peers removed) := by
  induction peers generalizing removed with
  | nil => exact plain_done _
  | cons peer rest ih =>
    unfold Service.reclaim
    split
    · exact ih removed
    · cases reclaimVerdict peer hostId now with
      | keep => exact ih removed
      | reclaim =>
        apply plain_bind (plain_reply (by exact trivial) _)
        intro gone
        cases gone with
        | false => exact ih removed
        | true => exact ih _

theorem ownNow_mono {past past' : Past} (h : past <+: past') {now : ℤ}
    (hnow : ownNow past = some now) :
    ownNow past' = some now := by
  obtain ⟨more, rfl⟩ := h
  unfold ownNow at hnow ⊢
  rw [List.findSome?_append, hnow]
  rfl

theorem saw_mono {past past' : Past} (h : past <+: past') {roomId : RoomId} {expiry : ℤ}
    (hsaw : ∃ e ∈ past, SawRoom e roomId expiry) : ∃ e ∈ past', SawRoom e roomId expiry := by
  obtain ⟨e, he, hsaw⟩ := hsaw
  exact ⟨e, h.subset he, hsaw⟩

theorem renewed_mono {past past' : Past} (h : past <+: past') {roomId : RoomId} {now : ℤ}
    (hrenewed : ∃ e ∈ past, Renewed e roomId now) : ∃ e ∈ past', Renewed e roomId now := by
  obtain ⟨e, he, hrenewed⟩ := hrenewed
  exact ⟨e, h.subset he, hrenewed⟩

theorem obeys_extends {α : Type} {P : Past → Call → Prop} {Q : Past → α → Prop}
    {p : Handler α} {past : Past} (h : Obeys (M := store) P Q p past) :
    Obeys (M := store) P (fun past' a => past <+: past' ∧ Q past' a) p past :=
  h.weaken (fun _ _ _ hc => hc) fun _ _ hle hq => ⟨hle, hq⟩

theorem sourced_confirm {roomId : RoomId} {view : RoomView} {room : RoomItem} {host : PeerItem}
    {skip targets confirmed : List PeerId} {past : Past}
    (hsaw : ∃ e ∈ past, SawRoom e roomId room.expiresAtMs) :
    Obeys (M := store) Sourced (fun _ _ => True)
      (Service.confirm roomId view room host skip targets confirmed) past := by
  induction targets generalizing confirmed past with
  | nil => trivial
  | cons target rest ih =>
    unfold Service.confirm
    split
    · exact ih hsaw
    split
    · exact ih hsaw
    apply obeys_plain_bind (plain_ofExcept _)
    intro past₁ other h₁
    split
    · apply obeys_plain_bind (plain_call (by exact trivial))
      intro past₂ wall h₂
      apply obeys_plain_bind (plain_call (by exact trivial))
      intro past₃ mono h₃
      apply obeys_plain_bind (plain_call (by exact trivial))
      intro past₄ boot h₄
      have hsaw₄ := saw_mono (((h₁.trans h₂).trans h₃).trans h₄) hsaw
      apply obeys_bind
      refine ⟨hsaw₄, fun before r => ?_⟩
      apply (plain_ofExcept _).then
      intro past₅ result h₅
      have hsaw₅ := saw_mono ((List.prefix_append _ _).trans h₅) hsaw₄
      cases result <;> exact ih hsaw₅
    · exact ih (saw_mono h₁ hsaw)

theorem sourced_renewItems {roomId : RoomId} {now : ℤ} {sks : List SortKey} {past : Past}
    (hnow : ownNow past = some now) (hrenewed : ∃ e ∈ past, Renewed e roomId now) :
    Obeys (M := store) Sourced (fun _ _ => True)
    (Service.renewItems roomId (ttlFor (now + LEASE_MS)) sks) past := by
  induction sks generalizing past with
  | nil => trivial
  | cons sk rest ih =>
    have hnext : ∀ e : Event store, ownNow (past ++ [e]) = some now ∧
      ∃ e' ∈ past ++ [e], Renewed e' roomId now :=
      fun e =>
        ⟨ownNow_mono (List.prefix_append _ _) hnow, renewed_mono (List.prefix_append _ _) hrenewed⟩
    cases sk with
    | room => exact ih hnow hrenewed
    | _ => exact ⟨⟨now, hnow, rfl, hrenewed⟩, fun before r => ih (hnext _).1 (hnext _).2⟩

theorem sourced_renew {roomId : RoomId} {view : RoomView} {removed : List SortKey}
    {now : ℤ} {past : Past} (hnow : ownNow past = some now) :
    Obeys (M := store) Sourced (fun _ _ => True) (Service.renew roomId view removed now) past := by
  unfold Service.renew
  refine ⟨⟨hnow, rfl⟩, fun before r => ?_⟩
  have hreply : (exec r (.renewRoom roomId now (now + LEASE_MS)) before).1 =
      (before.table.renewRoom roomId now (now + LEASE_MS)).1 := rfl
  change Obeys Sourced _
    (if (exec r (.renewRoom roomId now (now + LEASE_MS)) before).1 then _ else _) _
  rw [hreply]
  split
  case isTrue h =>
    apply sourced_renewItems
    · exact ownNow_mono (List.prefix_append _ _) hnow
    · refine ⟨_, List.mem_append_right _ (List.mem_singleton_self _), rfl, ?_⟩
      unfold Table.renewRoom at h
      unfold Table.roomOpen
      cases hroom : before.table.rooms.lookup roomId with
      | none => simp [hroom] at h
      | some room =>
        by_cases hopen : now < room.expiresAtMs
        · simpa [hroom] using hopen
        · simp [hroom, hopen] at h
  case isFalse => trivial

theorem sourced_hostReport (body : List (Text × Json)) :
    Obeys (M := store) Sourced (fun _ _ => True) (Service.hostReport body) [] := by
  unfold Service.hostReport
  apply obeys_ofExcept_bind
  intro peerId _
  apply obeys_ofExcept_bind
  intro token _
  apply obeys_ofExcept_bind
  intro departed _
  apply obeys_ofExcept_bind
  intro confirms _
  apply obeys_ofExcept_bind
  intro roomId _
  refine ⟨trivial, fun b₀ r₀ => ⟨trivial, fun b₁ r₁ => ?_⟩⟩
  change Obeys Sourced _
    (Prog.ofExcept (checkRoom (b₁.table.rooms.lookup roomId) r₀.wallMs) >>= _) _
  apply obeys_ofExcept_bind
  intro room hroom
  have hsaw : ∃ e ∈ ([⟨b₀, r₀, .nowMs⟩, ⟨b₁, r₁, .queryRoom roomId⟩] : Past),
    SawRoom e roomId room.expiresAtMs :=
    ⟨⟨b₁, r₁, .queryRoom roomId⟩, by simp, .inr rfl, room, checkRoom_ok hroom, rfl⟩
  have hnow : ownNow ([⟨b₀, r₀, .nowMs⟩, ⟨b₁, r₁, .queryRoom roomId⟩] : Past) =
    some r₀.wallMs := rfl
  split
  · trivial
  apply obeys_ofExcept_bind
  intro host _
  apply obeys_plain_bind (plain_releaseDeparted _ _ _ _ _)
  intro past₂ gone h₂
  apply obeys_plain_bind (plain_reclaim _ _ _ _ _ _ _)
  intro past₃ removed h₃
  apply obeys_bind
  apply (obeys_extends (sourced_confirm (saw_mono (h₂.trans h₃) hsaw))).weaken (fun _ _ _ hc => hc)
  rintro past₄ confirmed - ⟨h₄, -⟩
  apply obeys_bind
  apply (obeys_extends (sourced_renew (ownNow_mono ((h₂.trans h₃).trans h₄) hnow))).weaken
    (fun _ _ _ hc => hc)
  rintro past₅ - - ⟨h₅, -⟩
  apply obeys_plain_bind (plain_call (by exact trivial))
  intro past₆ after h₆
  cases after.room with
  | none => trivial
  | some renewed =>
    apply obeys_plain_bind (plain_elements _ _ _)
    intro past₇ found h₇
    trivial

theorem sourced_createAttempts {nonce : Hex32} {name : Name} {now : ℤ} {hostId : PeerId}
    {token : Hex32} {left : ℕ} {past : Past} (hnow : ownNow past = some now) :
    Obeys (M := store) Sourced (fun _ _ => True)
    (Service.createAttempts nonce name now hostId token left) past := by
  induction left generalizing past with
  | zero => trivial
  | succ left ih =>
    unfold Service.createAttempts
    apply obeys_plain_bind (plain_call (by exact trivial))
    intro past₁ roomId h₁
    apply obeys_bind
    refine ⟨ownNow_mono h₁ hnow, fun before r => ?_⟩
    apply (plain_ofExcept _).then
    intro past₂ result h₂
    have hnow₂ := ownNow_mono (h₁.trans ((List.prefix_append _ _).trans h₂)) hnow
    cases result with
    | created => trivial
    | nonceExists =>
      apply obeys_plain_bind (plain_rereadNonce nonce)
      intro past₃ found _
      exact (plain_replay found now).then fun _ _ _ => trivial
    | roomIdTaken => exact ih hnow₂

theorem sourced_createRoom (body : List (Text × Json)) :
    Obeys (M := store) Sourced (fun _ _ => True) (Service.createRoom body) [] := by
  unfold Service.createRoom
  apply obeys_ofExcept_bind
  intro nonce _
  apply obeys_ofExcept_bind
  intro name _
  refine ⟨trivial, fun b₀ r₀ => ?_⟩
  have hnow : ownNow ([⟨b₀, r₀, .nowMs⟩] : Past) = some r₀.wallMs := rfl
  apply obeys_plain_bind (plain_call (by exact trivial))
  intro past₁ found h₁
  cases found with
  | some found => exact (plain_replay found r₀.wallMs).then fun _ _ _ => trivial
  | none =>
    apply obeys_plain_bind (plain_call (by exact trivial))
    intro past₂ hostId h₂
    apply obeys_plain_bind (plain_call (by exact trivial))
    intro past₃ token h₃
    exact sourced_createAttempts (ownNow_mono ((h₁.trans h₂).trans h₃) hnow)

theorem sourced_joinPool {roomId : RoomId} {room : RoomItem} {nonce : Hex32} {name : Name} {now : ℤ}
    {token : Hex32} {peerId : PeerId} {redraw : List Text → Handler Issued}
    {pool : List Text} {past : Past} (hsaw : ∃ e ∈ past, SawRoom e roomId room.expiresAtMs)
    (hredraw : ∀ past' pool', past <+: past' →
      Obeys (M := store) Sourced (fun _ _ => True) (redraw pool') past') :
    Obeys (M := store) Sourced (fun _ _ => True)
      (Service.joinPool roomId room nonce name now token peerId redraw pool) past := by
  induction pool generalizing past with
  | nil => trivial
  | cons vip rest ih =>
    unfold Service.joinPool
    apply obeys_bind
    refine ⟨hsaw, fun before r => ?_⟩
    apply (plain_ofExcept _).then
    intro past₁ result h₁
    have hle := (List.prefix_append _ _).trans h₁
    cases result with
    | joined => trivial
    | nonceExists =>
      apply obeys_plain_bind (plain_rereadNonce nonce)
      intro past₂ found _
      exact (plain_replayJoin found roomId now).then fun _ _ _ => trivial
    | roomGone =>
      apply obeys_plain_bind (plain_call (by exact trivial))
      intro past₂ found _
      cases found <;> trivial
    | nameTaken => trivial
    | vipTaken =>
      exact ih (saw_mono hle hsaw) fun past' pool' h' => hredraw past' pool' (hle.trans h')
    | peerIdTaken => exact hredraw past₁ _ hle

theorem sourced_joinAttempts {roomId : RoomId} {room : RoomItem} {nonce : Hex32}
    {name : Name} {now : ℤ} {token : Hex32} {left : ℕ} {peerId : PeerId} {pool : List Text}
    {past : Past}
    (hsaw : ∃ e ∈ past, SawRoom e roomId room.expiresAtMs) :
    Obeys (M := store) Sourced (fun _ _ => True)
      (Service.joinAttempts roomId room nonce name now token left peerId pool) past := by
  induction left generalizing peerId pool past with
  | zero => exact sourced_joinPool hsaw fun _ _ _ => trivial
  | succ left ih =>
    apply sourced_joinPool hsaw
    intro past' pool' hle
    apply obeys_plain_bind (plain_call (by exact trivial))
    intro past₁ drawn h₁
    exact ih (saw_mono (hle.trans h₁) hsaw)

theorem sourced_joinRoom (body : List (Text × Json)) :
    Obeys (M := store) Sourced (fun _ _ => True) (Service.joinRoom body) [] := by
  unfold Service.joinRoom
  apply obeys_ofExcept_bind
  intro nonce _
  apply obeys_ofExcept_bind
  intro name _
  apply obeys_ofExcept_bind
  intro roomId _
  apply obeys_plain_bind (plain_call (by exact trivial))
  intro past₀ now _
  apply obeys_plain_bind (plain_call (by exact trivial))
  intro past₁ found _
  cases found with
  | some found => exact (plain_replayJoin found roomId now).then fun _ _ _ => trivial
  | none =>
    refine ⟨trivial, fun b₂ r₂ => ?_⟩
    change Obeys Sourced _ (Prog.ofExcept (checkRoom (b₂.table.rooms.lookup roomId) now) >>= _) _
    apply obeys_ofExcept_bind
    intro room hroom
    have hsaw : ∃ e ∈ past₁ ++ [(⟨b₂, r₂, .getRoom roomId⟩ : Event store)],
      SawRoom e roomId room.expiresAtMs :=
      ⟨⟨b₂, r₂, .getRoom roomId⟩, by simp, .inl rfl, room, checkRoom_ok hroom, rfl⟩
    apply obeys_plain_bind (plain_call (by exact trivial))
    intro past₃ peerId h₃
    apply obeys_plain_bind (plain_call (by exact trivial))
    intro past₄ token h₄
    exact sourced_joinAttempts (saw_mono (h₃.trans h₄) hsaw)

theorem sourced_dispatch (req : Service.Request) :
    Obeys (M := store) Sourced (fun _ _ => True) (Service.dispatch req) [] := by
  unfold Service.dispatch
  dsimp only
  split
  · trivial
  · next run members hrun hbody =>
    have hissued : ∀ p : Handler Issued, Obeys (M := store) Sourced (fun _ _ => True) p [] →
        Obeys (M := store) Sourced (fun _ _ => True) (do return Fields.issued (← p)) [] := by
      intro p hp
      apply obeys_bind
      exact hp.weaken (fun _ _ _ hc => hc) fun _ _ _ _ => trivial
    split_ifs at hrun
    · cases hrun
      exact hissued _ (sourced_createRoom members)
    · cases hrun
      exact hissued _ (sourced_joinRoom members)
    · cases hrun
      exact (plain_registerCandidate members).then fun _ _ _ => trivial
    · cases hrun
      exact (plain_getPeers members).then fun _ _ _ => trivial
    · cases hrun
      exact sourced_hostReport members
  · trivial

/-! ## What a call writes -/

def Table.expiry (t : Table) (roomId : RoomId) : Option ℤ :=
  (t.rooms.lookup roomId).map RoomItem.expiresAtMs

/-- The stored `ttl` of an item of the room. -/
def Table.ttl (t : Table) (roomId : RoomId) : SortKey → Option ℤ
  | .room => (t.rooms.lookup roomId).map RoomItem.ttl
  | .peer id => (t.peers.lookup (roomId, id)).map PeerItem.ttl
  | .vip ip => (t.vips.lookup (roomId, ip)).map Claim.ttl
  | .name key => (t.names.lookup (roomId, key)).map Claim.ttl
  | .pair key => (t.pairs.lookup (roomId, key)).map PairItem.ttl

/-- The call created the room with the lease that begins at `now`. -/
def Made (e : Event store) (roomId : RoomId) (now : ℤ) : Prop :=
  ∃ host token nonce name, e.call = .createRoom roomId host token nonce now name ∧
    (e.before.table.createRoom e.reading.conflicts roomId host token nonce now name).1 =
      .ok .created

/-- Where a `ttl` that a call leaves behind comes from, if the item did not have it before. -/
inductive Wrote (e : Event store) (roomId : RoomId) (sk : SortKey) : ℤ → Prop where
  | made {now : ℤ} (absent : e.before.table.ttl roomId sk = none) (call : Made e roomId now) :
    Wrote e roomId sk (ttlFor (createdExpiresAt now))
  | joined {vip : Text} {peer : PeerId} {token nonce : Hex32} {now expires : ℤ} {name : Name}
    (absent : e.before.table.ttl roomId sk = none)
    (call : e.call = .joinRoom roomId vip peer token nonce now expires name) :
      Wrote e roomId sk (ttlFor expires)
  | confirmed {host other : PeerId} {wall mono : ℤ} {boot : Text} {expires : ℤ}
    (absent : e.before.table.ttl roomId sk = none)
    (call : e.call = .confirmPair roomId host other wall mono boot expires) :
      Wrote e roomId sk (ttlFor expires)
  | renewed {now expires : ℤ} (call : e.call = .renewRoom roomId now expires)
    (isOpen : e.before.table.roomOpen roomId now = true) : Wrote e roomId sk (ttlFor expires)
  | item {ttl : ℤ} (call : e.call = .renewItem roomId sk ttl) : Wrote e roomId sk ttl

section Lookups

variable {κ ν τ : Type} [DecidableEq κ] {l : AList fun _ : κ => ν} {f : ν → τ} {a a' : κ}
  {v : ν} {x : τ}

theorem map_lookup_insert (h : ((l.insert a v).lookup a').map f = some x) :
    a = a' ∧ x = f v ∨ (l.lookup a').map f = some x := by
  by_cases heq : a' = a
  · subst heq
    rw [AList.lookup_insert] at h
    exact .inl ⟨rfl, (Option.some.inj h).symm⟩
  · rw [AList.lookup_insert_ne heq] at h
    exact .inr h

theorem map_lookup_erase (h : ((l.erase a).lookup a').map f = some x) :
    (l.lookup a').map f = some x := by
  by_cases heq : a' = a
  · subst heq
    rw [AList.lookup_erase] at h
    cases h
  · rwa [AList.lookup_erase_ne heq] at h

end Lookups

section

variable {t : Table} {roomId roomId' : RoomId} {sk : SortKey} {x : ℤ}

theorem putRoom_ttl {room : RoomItem} (h : (t.putRoom roomId' room).ttl roomId sk = some x) :
    roomId' = roomId ∧ sk = .room ∧ x = room.ttl ∨ t.ttl roomId sk = some x := by
  cases sk with
  | room =>
    rcases map_lookup_insert h with ⟨heq, hx⟩ | h
    · exact .inl ⟨heq, rfl, hx⟩
    · exact .inr h
  | _ => exact .inr h

/-- A new peer's items have the `ttl` of the peer, and none of them was there. -/
theorem putPeer_ttl {p : PeerItem} (hfree : t.Free roomId' p)
    (h : (t.putPeer roomId' p).ttl roomId sk = some x) :
    roomId' = roomId ∧ t.ttl roomId sk = none ∧ x = p.ttl ∨ t.ttl roomId sk = some x := by
  cases sk with
  | room => exact .inr h
  | pair key => exact .inr h
  | peer id =>
    rcases map_lookup_insert h with ⟨heq, hx⟩ | h
    · obtain ⟨rfl, rfl⟩ := Prod.mk.inj heq
      exact .inl ⟨rfl, by simp [Table.ttl, hfree.peer], hx⟩
    · exact .inr h
  | vip ip =>
    rcases map_lookup_insert h with ⟨heq, hx⟩ | h
    · obtain ⟨rfl, rfl⟩ := Prod.mk.inj heq
      exact .inl ⟨rfl, by simp [Table.ttl, hfree.vip], hx⟩
    · exact .inr h
  | name key =>
    rcases map_lookup_insert h with ⟨heq, hx⟩ | h
    · obtain ⟨rfl, rfl⟩ := Prod.mk.inj heq
      exact .inl ⟨rfl, by simp [Table.ttl, hfree.name], hx⟩
    · exact .inr h

theorem foldl_erase_ttl {keys : List Text}
    {names : AList fun _ : RoomId × Text => Claim} {key : Text}
    (h : ((keys.foldl (fun names key => names.erase (roomId', key)) names).lookup (roomId, key)).map
      Claim.ttl = some x) :
    (names.lookup (roomId, key)).map Claim.ttl = some x := by
  induction keys generalizing names with
  | nil => exact h
  | cons k rest ih => exact map_lookup_erase (ih h)

theorem dropPeer_ttl {peer : PeerId} {vip : Text} {keys : List Text} {nonce : Option Hex32}
    (h : (t.dropPeer roomId' peer vip keys nonce).ttl roomId sk = some x) :
    t.ttl roomId sk = some x := by
  cases sk with
  | room => exact h
  | pair key => exact h
  | peer id => exact map_lookup_erase h
  | vip ip => exact map_lookup_erase h
  | name key => exact foldl_erase_ttl h

theorem dropPair_ttl {key : PairKey} (h : (t.dropPair roomId' key).ttl roomId sk = some x) :
    t.ttl roomId sk = some x := by
  cases sk with
  | pair key' => exact map_lookup_erase h
  | _ => exact h

/-- One item of a room is put again: the `ttl` is that of the new one, or was there before. -/
theorem put_again_ttl {κ ν : Type} [DecidableEq κ] {l : AList fun _ : RoomId × κ => ν} {f : ν → ℤ}
    {k k' : κ} {v : ν} (item : κ → SortKey)
    (h : ((l.insert (roomId', k) v).lookup (roomId, k')).map f = some x) :
    roomId' = roomId ∧ item k = item k' ∧ x = f v ∨ (l.lookup (roomId, k')).map f = some x := by
  rcases map_lookup_insert h with ⟨heq, hx⟩ | h
  · obtain ⟨rfl, rfl⟩ := Prod.mk.inj heq
    exact .inl ⟨rfl, rfl, hx⟩
  · exact .inr h

theorem renewItem_ttl {sk' : SortKey} {ttl : ℤ}
    (h : (t.renewItem roomId' sk' ttl).2.ttl roomId sk = some x) :
    roomId' = roomId ∧ sk' = sk ∧ x = ttl ∨ t.ttl roomId sk = some x := by
  unfold Table.renewItem at h
  cases sk' with
  | room =>
    cases hr : t.rooms.lookup roomId' with
    | none => exact .inr (by simpa [hr] using h)
    | some room =>
      rcases putRoom_ttl (by simpa [hr] using h) with ⟨heq, hsk, hx⟩ | h
      · exact .inl ⟨heq, hsk.symm, hx⟩
      · exact .inr h
  | peer id =>
    cases hp : t.peers.lookup (roomId', id) with
    | none => exact .inr (by simpa [hp] using h)
    | some found =>
      simp only [hp] at h
      cases sk with
      | peer id' => exact put_again_ttl .peer h
      | _ => exact .inr h
  | vip ip =>
    cases hp : t.vips.lookup (roomId', ip) with
    | none => exact .inr (by simpa [hp] using h)
    | some found =>
      simp only [hp] at h
      cases sk with
      | vip ip' => exact put_again_ttl .vip h
      | _ => exact .inr h
  | name key =>
    cases hp : t.names.lookup (roomId', key) with
    | none => exact .inr (by simpa [hp] using h)
    | some found =>
      simp only [hp] at h
      cases sk with
      | name key' => exact put_again_ttl .name h
      | _ => exact .inr h
  | pair key =>
    cases hp : t.pairs.lookup (roomId', key) with
    | none => exact .inr (by simpa [hp] using h)
    | some found =>
      simp only [hp] at h
      cases sk with
      | pair key' => exact put_again_ttl .pair h
      | _ => exact .inr h

end

/-- Every `ttl` after a call was there before, or the call wrote it. -/
theorem execTable_ttl {r : Reading} {c : Call} {s : Shared} {roomId : RoomId} {sk : SortKey} {x : ℤ}
    (h : (execTable r c s.table).2.ttl roomId sk = some x) :
    s.table.ttl roomId sk = some x ∨ Wrote ⟨s, r, c⟩ roomId sk x := by
  cases c with
  | createRoom roomId' host token nonce now name =>
    rcases Table.createRoom_cases r.conflicts roomId' host token nonce now name s.table with
      ⟨hx, habsent, hfree⟩ | ⟨reply, hx, -⟩
    · simp only [execTable, hx] at h
      have hmade : Made ⟨s, r, .createRoom roomId' host token nonce now name⟩ roomId' now :=
        ⟨host, token, nonce, name, rfl, by simp [hx]⟩
      have hstill : (s.table.putRoom roomId' (Table.newRoom now host)).Free roomId'
          (Table.hostItem host token nonce now name) := ⟨hfree.peer, hfree.vip,
            hfree.name, hfree.nonce⟩
      rcases putPeer_ttl hstill h with ⟨rfl, hnone, rfl⟩ | h
      · refine .inr (.made ?_ hmade)
        cases sk with
        | room => simp [Table.ttl, habsent]
        | _ => exact hnone
      · rcases putRoom_ttl h with ⟨rfl, rfl, rfl⟩ | h
        · exact .inr (.made (by simp [Table.ttl, habsent]) hmade)
        · exact .inl h
    · simp only [execTable, hx] at h
      exact .inl h
  | joinRoom roomId' vip peer token nonce now expires name =>
    rcases Table.joinRoom_cases r.conflicts roomId' vip peer token nonce now expires
      name s.table with
      ⟨hx, -, hfree⟩ | ⟨reply, hx, -⟩
    · simp only [execTable, hx] at h
      rcases putPeer_ttl hfree h with ⟨rfl, hnone, rfl⟩ | h
      · exact .inr (.joined hnone rfl)
      · exact .inl h
    · simp only [execTable, hx] at h
      exact .inl h
  | registerCandidates roomId' peer token candidates =>
    simp only [execTable, Table.registerCandidates] at h
    cases hp : s.table.peers.lookup (roomId', peer) with
    | none => exact .inl (by simpa [hp] using h)
    | some found =>
      simp only [hp] at h
      split at h
      · cases sk with
        | peer id =>
          rcases map_lookup_insert h with ⟨heq, rfl⟩ | h
          · obtain ⟨rfl, rfl⟩ := Prod.mk.inj heq
            exact .inl (by simp [Table.ttl, hp])
          · exact .inl h
        | _ => exact .inl h
      · exact .inl h
  | releasePeer roomId' peer vip host nonce keys =>
    rcases Table.releasePeer_cases r.conflicts roomId' peer vip host nonce keys
      s.table with ⟨hx, -⟩ | ⟨reply, hx, -⟩
    · simp only [execTable, hx] at h
      exact .inl (dropPeer_ttl (dropPair_ttl h))
    · simp only [execTable, hx] at h
      exact .inl h
  | reclaimPeer roomId' peer vip nonce now keys =>
    rcases Table.reclaimPeer_cases r.conflicts roomId' peer vip nonce now keys
      s.table with ⟨hx, -⟩ | ⟨reply, hx, -⟩
    · simp only [execTable, hx] at h
      exact .inl (dropPeer_ttl h)
    · simp only [execTable, hx] at h
      exact .inl h
  | confirmPair roomId' host other wall mono boot expires =>
    rcases Table.confirmPair_cases r.conflicts roomId' host other wall mono boot
      expires s.table with
      ⟨hx, -, -, habsent⟩ | ⟨reply, hx, -⟩
    · simp only [execTable, hx] at h
      cases sk with
      | pair key =>
        rcases map_lookup_insert h with ⟨heq, rfl⟩ | h
        · obtain ⟨rfl, rfl⟩ := Prod.mk.inj heq
          exact .inr (.confirmed (by simp [Table.ttl, habsent]) rfl)
        · exact .inl h
      | _ => exact .inl h
    · simp only [execTable, hx] at h
      exact .inl h
  | renewRoom roomId' now expires =>
    simp only [execTable, Table.renewRoom] at h
    cases hr : s.table.rooms.lookup roomId' with
    | none => exact .inl (by simpa [hr] using h)
    | some room =>
      simp only [hr] at h
      by_cases hopen : now < room.expiresAtMs
      · simp only [hopen, if_true] at h
        rcases putRoom_ttl h with ⟨rfl, rfl, rfl⟩ | h
        · exact .inr (.renewed rfl (by simpa [Table.roomOpen, hr] using hopen))
        · exact .inl h
      · simp only [hopen, if_false] at h
        exact .inl h
  | renewItem roomId' sk' ttl =>
    rcases renewItem_ttl h with ⟨rfl, rfl, rfl⟩ | h
    · exact .inr (.item rfl)
    · exact .inl h
  | _ => exact .inl h

/-- Where an expiry that a call leaves behind comes from, if the room did not have it before. -/
inductive Leased (e : Event store) (roomId : RoomId) : ℤ → Prop where
  | made {now : ℤ} (call : Made e roomId now) (absent : e.before.table.expiry roomId = none) :
    Leased e roomId (createdExpiresAt now)
  | renewed {now expires : ℤ} (call : e.call = .renewRoom roomId now expires)
    (isOpen : e.before.table.roomOpen roomId now = true) : Leased e roomId expires

theorem putRoom_expiry {t : Table} {roomId roomId' : RoomId} {room : RoomItem} {x : ℤ}
    (h : (t.putRoom roomId' room).expiry roomId = some x) :
    roomId' = roomId ∧ x = room.expiresAtMs ∨ t.expiry roomId = some x :=
  map_lookup_insert h

theorem execTable_expiry {r : Reading} {c : Call} {s : Shared} {roomId : RoomId} {x : ℤ}
    (h : (execTable r c s.table).2.expiry roomId = some x) :
    s.table.expiry roomId = some x ∨ Leased ⟨s, r, c⟩ roomId x := by
  cases c with
  | createRoom roomId' host token nonce now name =>
    rcases Table.createRoom_cases r.conflicts roomId' host token nonce now name s.table with
      ⟨hx, habsent, -⟩ | ⟨reply, hx, -⟩
    · simp only [execTable, hx] at h
      have hput : (s.table.putRoom roomId' (Table.newRoom now host)).expiry roomId = some x := h
      rcases putRoom_expiry hput with ⟨rfl, rfl⟩ | h
      · exact .inr
          (.made ⟨host, token, nonce, name, rfl, by simp [hx]⟩ (by simp [Table.expiry, habsent]))
      · exact .inl h
    · simp only [execTable, hx] at h
      exact .inl h
  | joinRoom roomId' vip peer token nonce now expires name =>
    rcases Table.joinRoom_cases r.conflicts roomId' vip peer token nonce now expires
      name s.table with
      ⟨hx, -⟩ | ⟨reply, hx, -⟩ <;> simp only [execTable, hx] at h <;> exact .inl h
  | registerCandidates roomId' peer token candidates =>
    simp only [execTable, Table.registerCandidates] at h
    split at h
    · split at h <;> exact .inl h
    · exact .inl h
  | releasePeer roomId' peer vip host nonce keys =>
    rcases Table.releasePeer_cases r.conflicts roomId' peer vip host nonce keys s.table with
      ⟨hx, -⟩ | ⟨reply, hx, -⟩ <;> simp only [execTable, hx] at h <;> exact .inl h
  | reclaimPeer roomId' peer vip nonce now keys =>
    rcases Table.reclaimPeer_cases r.conflicts roomId' peer vip nonce now keys s.table with
      ⟨hx, -⟩ | ⟨reply, hx, -⟩ <;> simp only [execTable, hx] at h <;> exact .inl h
  | confirmPair roomId' host other wall mono boot expires =>
    rcases Table.confirmPair_cases r.conflicts roomId' host other wall mono boot
      expires s.table with
      ⟨hx, -⟩ | ⟨reply, hx, -⟩ <;> simp only [execTable, hx] at h <;> exact .inl h
  | renewRoom roomId' now expires =>
    simp only [execTable, Table.renewRoom] at h
    cases hr : s.table.rooms.lookup roomId' with
    | none => exact .inl (by simpa [hr] using h)
    | some room =>
      simp only [hr] at h
      by_cases hopen : now < room.expiresAtMs
      · simp only [hopen, if_true] at h
        rcases putRoom_expiry h with ⟨rfl, rfl⟩ | h
        · exact .inr (.renewed rfl (by simpa [Table.roomOpen, hr] using hopen))
        · exact .inl h
      · simp only [hopen, if_false] at h
        exact .inl h
  | renewItem roomId' sk ttl =>
    refine .inl ?_
    simp only [execTable, Table.renewItem] at h
    cases sk with
    | room =>
      cases hr : s.table.rooms.lookup roomId' with
      | none => simpa [hr] using h
      | some room =>
        simp only [hr] at h
        rcases putRoom_expiry h with ⟨rfl, rfl⟩ | h
        · simp [Table.expiry, hr]
        · exact h
    | peer id => cases hp : s.table.peers.lookup (roomId', id) <;> simpa [hp, Table.expiry] using h
    | vip ip => cases hp : s.table.vips.lookup (roomId', ip) <;> simpa [hp, Table.expiry] using h
    | name key =>
      cases hp : s.table.names.lookup (roomId', key) <;> simpa [hp, Table.expiry] using h
    | pair key =>
      cases hp : s.table.pairs.lookup (roomId', key) <;> simpa [hp, Table.expiry] using h
  | _ => exact .inl h

/-! ## The readings behind the lease -/

/-- A request that created or renewed the room read the clock at `now`. -/
def Granted (tasks : List ServerTask) (roomId : RoomId) (now : ℤ) : Prop :=
  ∃ t ∈ tasks, ownNow t.past = some now ∧ ∃ e ∈ t.past, Made e roomId now ∨ Renewed e roomId now

/-- The expiry is not after the end of a lease that some request has granted. -/
def Covered (tasks : List ServerTask) (roomId : RoomId) (expiry : ℤ) : Prop :=
  ∃ now, Granted tasks roomId now ∧ expiry ≤ now + LEASE_MS

/-- What holds of the leases between the calls of a run. -/
structure Accounted (w : ServerWorld) : Prop where
  obeys : ∀ t ∈ w.tasks, Obeys (M := store) Sourced (fun _ _ => True) t.rest t.past
  saw : ∀ t ∈ w.tasks, ∀ e ∈ t.past, ∀ roomId expiry, SawRoom e roomId expiry →
    Covered w.tasks roomId expiry
  expiry : ∀ roomId expiry, w.state.table.expiry roomId = some expiry →
    Covered w.tasks roomId expiry
  ttl : ∀ roomId sk ttl, w.state.table.ttl roomId sk = some ttl →
    ∃ expiry, Covered w.tasks roomId expiry ∧ ttl ≤ ttlFor expiry

theorem initial_accounted (clock : ℤ) : Accounted (initialWorld clock) where
  obeys _ ht := absurd ht List.not_mem_nil
  saw _ ht := absurd ht List.not_mem_nil
  expiry _ _ h := nomatch h
  ttl _ sk _ h := by cases sk <;> cases h

section

variable {tasks tasks' : List ServerTask} {roomId : RoomId}

def Carries (tasks tasks' : List ServerTask) : Prop :=
  ∀ t ∈ tasks, ∃ t' ∈ tasks', t.past <+: t'.past

theorem Granted.mono (hle : Carries tasks tasks') {now : ℤ} (h : Granted tasks roomId now) :
    Granted tasks' roomId now := by
  obtain ⟨t, ht, hnow, e, he, hgrant⟩ := h
  obtain ⟨t', ht', hpre⟩ := hle t ht
  exact ⟨t', ht', ownNow_mono hpre hnow, e, hpre.subset he, hgrant⟩

theorem Covered.mono (hle : Carries tasks tasks') {expiry : ℤ} (h : Covered tasks roomId expiry) :
    Covered tasks' roomId expiry := by
  obtain ⟨now, hgrant, hexpiry⟩ := h
  exact ⟨now, hgrant.mono hle, hexpiry⟩

end

theorem carries_set {tasks : List ServerTask} {i : ℕ} {t t' : ServerTask} (ht : tasks[i]? = some t)
    (hpre : t.past <+: t'.past) : Carries tasks (tasks.set i t') := by
  intro u hu
  obtain ⟨j, hj⟩ := List.getElem?_of_mem hu
  by_cases hij : i = j
  · subst hij
    obtain rfl := Option.some.inj (ht.symm.trans hj)
    have hlt : i < tasks.length := (List.getElem?_eq_some_iff.mp ht).1
    exact ⟨t', List.mem_of_getElem? (List.getElem?_set_self hlt), hpre⟩
  · exact ⟨u, List.mem_of_getElem? ((List.getElem?_set_ne hij).trans hj), List.prefix_refl _⟩

theorem ttlFor_mono {a b : ℤ} (h : a ≤ b) : ttlFor a ≤ ttlFor b := by
  unfold ttlFor
  omega

theorem granted_own {tasks : List ServerTask} {t t' : ServerTask} {e : Event store}
    {roomId : RoomId} {now : ℤ} (hmem : t' ∈ tasks) (hpast : t'.past = t.past ++ [e])
    (hnow : ownNow t.past = some now)
    (h : Made e roomId now ∨ Renewed e roomId now) : Granted tasks roomId now := by
  refine ⟨t', hmem, ?_, e, ?_, h⟩
  · rw [hpast]
    exact ownNow_mono (List.prefix_append _ _) hnow
  · rw [hpast]
    exact List.mem_append_right _ (List.mem_singleton_self _)

theorem made_now {past : Past} {e : Event store} {roomId : RoomId} {now : ℤ}
    (hsourced : Sourced past e.call) (h : Made e roomId now) :
    ownNow past = some now := by
  obtain ⟨host, token, nonce, name, hcall, -⟩ := h
  rw [hcall] at hsourced
  exact hsourced

section

variable {w : ServerWorld} {tasks : List ServerTask} {t t' : ServerTask} {e : Event store}
  {roomId : RoomId} {x : ℤ}

theorem leased_granted (hmem : t' ∈ tasks) (hpast : t'.past = t.past ++ [e])
    (hsourced : Sourced t.past e.call) (h : Leased e roomId x) :
    ∃ now, ownNow t.past = some now ∧ Granted tasks roomId now ∧
    x = now + LEASE_MS := by
  cases h with
  | @made now call absent =>
    have hnow := made_now hsourced call
    exact ⟨now, hnow, granted_own hmem hpast hnow (.inl call), rfl⟩
  | @renewed now expires call isOpen =>
    rw [call] at hsourced
    obtain ⟨hnow, rfl⟩ := hsourced
    exact ⟨now, hnow, granted_own hmem hpast hnow (.inr ⟨call, isOpen⟩), rfl⟩

/-- A new `ttl` is that of a lease that the request has seen or granted. -/
theorem wrote_covered (hinv : Accounted w) (ht : t ∈ w.tasks) (hle : Carries w.tasks tasks)
    (hmem : t' ∈ tasks) (hpast : t'.past = t.past ++ [e]) (hsourced : Sourced t.past e.call)
    {sk : SortKey}
    (h : Wrote e roomId sk x) :
    ∃ expiry, Covered tasks roomId expiry ∧ x ≤ ttlFor expiry := by
  have hseen : ∀ expires, (∃ e' ∈ t.past, SawRoom e' roomId expires) →
      ∃ expiry, Covered tasks roomId expiry ∧ ttlFor expires ≤ ttlFor expiry := by
    rintro expires ⟨e', he', hsaw⟩
    exact ⟨expires, (hinv.saw t ht e' he' roomId expires hsaw).mono hle, le_refl _⟩
  cases h with
  | @made now absent call =>
    have hnow := made_now hsourced call
    exact ⟨_, ⟨now, granted_own hmem hpast hnow (.inl call), le_refl _⟩, le_refl _⟩
  | joined absent call =>
    rw [call] at hsourced
    exact hseen _ hsourced
  | confirmed absent call =>
    rw [call] at hsourced
    exact hseen _ hsourced
  | @renewed now expires call isOpen =>
    rw [call] at hsourced
    obtain ⟨hnow, rfl⟩ := hsourced
    exact ⟨_, ⟨now, granted_own hmem hpast hnow (.inr ⟨call, isOpen⟩), le_refl _⟩, le_refl _⟩
  | item call =>
    rw [call] at hsourced
    obtain ⟨now, hnow, rfl, e', he', hrenewed⟩ := hsourced
    exact ⟨_, ⟨now, Granted.mono hle ⟨t, ht, hnow, e', he', .inr hrenewed⟩, le_refl _⟩, le_refl _⟩

end

variable {admits : Shared → Call → Reading → Prop}

theorem step_accounted {w w' : ServerWorld} (h : Accounted w)
    (hstep : Step admits Service.dispatch w w') :
    Accounted w' := by
  have hobeys := steps_obeys (M := store) sourced_dispatch (.single hstep) h.obeys
  rcases step_cases hstep with ⟨q, rfl⟩ | ⟨i, t, r, c, next, ht, hrest, -, rfl⟩
  · have hle : Carries w.tasks (w.tasks ++ [⟨q, w.state, [], Service.dispatch q⟩]) :=
      fun t ht => ⟨t, List.mem_append_left _ ht, List.prefix_refl _⟩
    refine ⟨hobeys, ?_, ?_, ?_⟩
    · intro t ht e he roomId expiry hsaw
      rcases List.mem_append.mp ht with ht | ht
      · exact (h.saw t ht e he roomId expiry hsaw).mono hle
      · obtain rfl := List.mem_singleton.mp ht
        cases he
    · exact fun roomId expiry hexpiry => (h.expiry roomId expiry hexpiry).mono hle
    · intro roomId sk ttl httl
      obtain ⟨expiry, hcovered, hbound⟩ := h.ttl roomId sk ttl httl
      exact ⟨expiry, hcovered.mono hle, hbound⟩
  · have hmem : t ∈ w.tasks := List.mem_of_getElem? ht
    have hlt : i < w.tasks.length := (List.getElem?_eq_some_iff.mp ht).1
    have hsourced : Sourced t.past c := by
      have := h.obeys t hmem
      rw [hrest] at this
      exact this.1
    have hmem' :
      (⟨t.request, t.began, t.past ++ [⟨w.state, r, c⟩], next (exec r c w.state).1⟩ : ServerTask) ∈
        w.tasks.set i
          ⟨t.request, t.began, t.past ++ [⟨w.state, r, c⟩], next (exec r c w.state).1⟩ :=
      List.mem_of_getElem? (List.getElem?_set_self hlt)
    have hle : Carries w.tasks (w.tasks.set i ⟨t.request, t.began, t.past ++ [⟨w.state, r, c⟩],
        next (exec r c w.state).1⟩) := carries_set ht (List.prefix_append _ _)
    refine ⟨hobeys, ?_, ?_, ?_⟩
    · intro u hu e he roomId expiry hsaw
      have hold : ∀ u ∈ w.tasks, e ∈ u.past → Covered (w.tasks.set i ⟨t.request, t.began,
          t.past ++ [⟨w.state, r, c⟩], next (exec r c w.state).1⟩) roomId expiry :=
        fun u hu he => (h.saw u hu e he roomId expiry hsaw).mono hle
      rcases List.mem_or_eq_of_mem_set hu with hu | rfl
      · exact hold u hu he
      · rcases List.mem_append.mp he with he | he
        · exact hold t hmem he
        · obtain rfl := List.mem_singleton.mp he
          obtain ⟨-, room, hroom, hexpiry⟩ := hsaw
          exact (h.expiry roomId expiry (by simp [Table.expiry, hroom, hexpiry])).mono hle
    · intro roomId expiry hexpiry
      rcases execTable_expiry hexpiry with hexpiry | hleased
      · exact (h.expiry roomId expiry hexpiry).mono hle
      · obtain ⟨now, -, hgranted, rfl⟩ := leased_granted hmem' rfl hsourced hleased
        exact ⟨now, hgranted, le_refl _⟩
    · intro roomId sk ttl httl
      rcases execTable_ttl httl with httl | hwrote
      · obtain ⟨expiry, hcovered, hbound⟩ := h.ttl roomId sk ttl httl
        exact ⟨expiry, hcovered.mono hle, hbound⟩
      · exact wrote_covered h hmem hle hmem' rfl hsourced hwrote

theorem steps_accounted {w w' : ServerWorld} (h : Accounted w)
    (hsteps : Steps admits Service.dispatch w w') :
    Accounted w' := by
  induction hsteps with
  | refl => exact h
  | tail _ hstep ih => exact step_accounted ih hstep

/-! ## When a lease moves back -/

/-- The room's expiry or the `ttl` of one of its items is less than it was. -/
def Retreats (t t' : Table) (roomId : RoomId) : Prop :=
  (∃ expiry expiry', t.expiry roomId = some expiry ∧ t'.expiry roomId = some expiry' ∧
    expiry' < expiry) ∨
    ∃ sk ttl ttl', t.ttl roomId sk = some ttl ∧ t'.ttl roomId sk = some ttl' ∧ ttl' < ttl

def Call.RenewsIn (roomId : RoomId) : Call → Prop
  | .renewRoom roomId' _ _ => roomId' = roomId
  | .renewItem roomId' _ _ => roomId' = roomId
  | _ => False

/-- The step is a renewal of the room by a request that read the clock before another one whose
lease the room already had. -/
def Overtaken (w w' : ServerWorld) (roomId : RoomId) : Prop :=
  ∃ (i : ℕ) (t t' : ServerTask) (e : Event store) (now later : ℤ), w.tasks[i]? = some t ∧
    w'.tasks[i]? = some t' ∧ t'.past = t.past ++ [e] ∧
    e.call.RenewsIn roomId ∧ ownNow t.past = some now ∧ Granted w.tasks roomId later ∧ now < later

/-- A renewal that makes something less than what is covered comes from an older reading. -/
theorem covered_later {tasks : List ServerTask} {roomId : RoomId} {expiry now : ℤ}
    (hcovered : Covered tasks roomId expiry) (hlt : now + LEASE_MS < expiry) :
    ∃ later, Granted tasks roomId later ∧ now < later := by
  obtain ⟨later, hgranted, hle⟩ := hcovered
  exact ⟨later, hgranted, by omega⟩

theorem lt_of_ttlFor_lt {a b : ℤ} (h : ttlFor a < ttlFor b) : a < b := by
  by_contra hge
  exact absurd (ttlFor_mono (not_lt.mp hge)) (not_le.mpr h)

theorem accounted_retreat {w w' : ServerWorld} (h : Accounted w)
    (hstep : Step admits Service.dispatch w w') {roomId : RoomId}
    (hretreats : Retreats w.state.table w'.state.table roomId) :
    Overtaken w w' roomId := by
  rcases step_cases hstep with ⟨q, rfl⟩ | ⟨i, t, r, c, next, ht, hrest, -, rfl⟩
  · rcases hretreats with ⟨expiry, expiry', h₁, h₂, hlt⟩ | ⟨sk, ttl, ttl', h₁, h₂, hlt⟩
    · obtain rfl := Option.some.inj (h₁.symm.trans h₂)
      exact absurd hlt (lt_irrefl _)
    · obtain rfl := Option.some.inj (h₁.symm.trans h₂)
      exact absurd hlt (lt_irrefl _)
  · have hmem : t ∈ w.tasks := List.mem_of_getElem? ht
    have hlt' : i < w.tasks.length := (List.getElem?_eq_some_iff.mp ht).1
    have hsourced : Sourced t.past c := by
      have := h.obeys t hmem
      rw [hrest] at this
      exact this.1
    -- a renewal with this reading that leaves less than a covered expiry
    have hovertaken : ∀ now, c.RenewsIn roomId → ownNow t.past = some now →
        ∀ expiry, Covered w.tasks roomId expiry → now + LEASE_MS < expiry →
        Overtaken w
          ⟨(exec r c w.state).2, w.tasks.set i ⟨t.request, t.began, t.past ++ [⟨w.state, r, c⟩],
          next (exec r c w.state).1⟩⟩ roomId := by
      intro now hrenews hnow expiry hcovered hlt
      obtain ⟨later, hgranted, hlater⟩ := covered_later hcovered hlt
      exact ⟨i, t, _, ⟨w.state, r, c⟩, now, later, ht, List.getElem?_set_self hlt', rfl, hrenews,
        hnow, hgranted, hlater⟩
    rcases hretreats with ⟨expiry, expiry', h₁, h₂, hlt⟩ | ⟨sk, ttl, ttl', h₁, h₂, hlt⟩
    · rcases execTable_expiry h₂ with h₂ | hleased
      · obtain rfl := Option.some.inj (h₁.symm.trans h₂)
        exact absurd hlt (lt_irrefl _)
      · cases hleased with
        | made call absent =>
          rw [absent] at h₁
          cases h₁
        | @renewed now expires call isOpen =>
          obtain rfl : c = .renewRoom roomId now expiry' := call
          obtain ⟨hnow, rfl⟩ := hsourced
          exact hovertaken now rfl hnow expiry (h.expiry roomId expiry h₁) hlt
    · obtain ⟨expiry, hcovered, hbound⟩ := h.ttl roomId sk ttl h₁
      rcases execTable_ttl h₂ with h₂ | hwrote
      · obtain rfl := Option.some.inj (h₁.symm.trans h₂)
        exact absurd hlt (lt_irrefl _)
      · cases hwrote with
        | made absent call =>
          rw [absent] at h₁
          cases h₁
        | joined absent call =>
          rw [absent] at h₁
          cases h₁
        | confirmed absent call =>
          rw [absent] at h₁
          cases h₁
        | @renewed now expires call isOpen =>
          obtain rfl : c = .renewRoom roomId now expires := call
          obtain ⟨hnow, rfl⟩ := hsourced
          exact hovertaken now rfl hnow expiry hcovered (lt_of_ttlFor_lt (hlt.trans_le hbound))
        | item call =>
          obtain rfl : c = .renewItem roomId sk ttl' := call
          obtain ⟨now, hnow, rfl, -⟩ := hsourced
          exact hovertaken now rfl hnow expiry hcovered (lt_of_ttlFor_lt (hlt.trans_le hbound))

/-- The lease of a room moves back only where a renewal is overtaken by another. -/
theorem lease_retreat_overtaken {clock : ℤ} {w w' : ServerWorld}
    (hsteps : Steps Ticking Service.dispatch (initialWorld clock) w)
    (hstep : Step Ticking Service.dispatch w w') (roomId : RoomId)
    (hretreats : Retreats w.state.table w'.state.table roomId) :
    Overtaken w w' roomId :=
  accounted_retreat (steps_accounted (initial_accounted clock) hsteps) hstep hretreats

/-- Two reports overlap: the later one renews the room first. -/
def crossedSchedule : List (Action store Service.Request) :=
  sampleCalls (sampleReport [] []) 1 2 1000 0 ++ sampleCalls (sampleReport [] []) 2 3 2000 0

def createdWorld : ServerWorld :=
  (play Ticking Service.dispatch (sampleCalls sampleCreate 0 6 0 0) (initialWorld 0)).get
    (by decide +kernel)

def crossedWorld : ServerWorld :=
  (play Ticking Service.dispatch crossedSchedule createdWorld).get (by decide +kernel)

/-- Then the earlier one renews it too. -/
def retreatedWorld : ServerWorld :=
  (play Ticking Service.dispatch [.advance 1 (sampleReading 2000 0)] crossedWorld).get
    (by decide +kernel)

theorem crossed_retreats :
    Retreats crossedWorld.state.table retreatedWorld.state.table sampleRoom := by
  refine .inl ⟨122000, 121000, ?_, ?_, by decide⟩
  · decide +kernel
  · decide +kernel

theorem crossed_steps : Steps Ticking Service.dispatch createdWorld crossedWorld :=
  steps_of_play (Option.some_get _).symm

theorem created_steps : Steps Ticking Service.dispatch (initialWorld 0) createdWorld :=
  steps_of_play (Option.some_get _).symm

theorem retreated_step : Step Ticking Service.dispatch crossedWorld retreatedWorld :=
  step_of_play (Option.some_get _).symm

theorem crossed_overtaken :
    Retreats crossedWorld.state.table retreatedWorld.state.table sampleRoom ∧
    Overtaken crossedWorld retreatedWorld sampleRoom :=
  ⟨crossed_retreats, lease_retreat_overtaken (created_steps.trans crossed_steps) retreated_step
    sampleRoom crossed_retreats⟩

/-- While only reports run, no stored expiry of the room and no `ttl` of its items becomes less. -/
def LeaseForward : Prop :=
  ∀ clock w₀ w w', Steps Ticking Service.dispatch (initialWorld clock) w₀ →
    (∀ t ∈ w₀.tasks, t.rest.outcome.isSome) →
    Steps Ticking Service.dispatch w₀ w → Step Ticking Service.dispatch w w' →
    (∀ t ∈ w'.tasks.drop w₀.tasks.length, t.request.op = "host_report".toList) →
    ∀ roomId, ¬Retreats w.state.table w'.state.table roomId

theorem lease_not_forward : ¬LeaseForward := by
  intro h
  apply h 0 createdWorld crossedWorld retreatedWorld created_steps _ crossed_steps
    retreated_step _ sampleRoom
  · exact crossed_retreats
  · decide +kernel
  · decide +kernel

end Sangtachi.Control
