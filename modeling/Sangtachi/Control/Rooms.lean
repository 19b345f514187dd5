import Sangtachi.Control.StoreSpecs
import Sangtachi.Control.Service
import Sangtachi.Core.UniqueIndex

/-! # Rooms stay consistent

The addresses, the name keys and the nonces are unique indexes of the peers. `Effect` says
once what a call can do to the shared state; the consistency of the rooms and the way a room
may change between two calls of one request both follow from it. -/
namespace Sangtachi.Control

open UniqueIndex

namespace Table

def peerAt (t : Table) (k : RoomId × PeerId) : Option PeerItem := t.peers.lookup k

def pairAt (t : Table) (k : RoomId × PairKey) : Option PairItem := t.pairs.lookup k

def vipOwner (t : Table) (i : RoomId × Text) : Option (RoomId × PeerId) :=
  (t.vips.lookup i).map fun claim => (i.1, claim.peerId)

def nameOwner (t : Table) (i : RoomId × Text) : Option (RoomId × PeerId) :=
  (t.names.lookup i).map fun claim => (i.1, claim.peerId)

def nonceOwner (t : Table) (nonce : Hex32) : Option (RoomId × PeerId) :=
  (t.nonces.lookup nonce).map fun item => (item.roomId, item.peerId)

end Table

def vipEntry (k : RoomId × PeerId) (p : PeerItem) : RoomId × Text := (k.1, p.virtualIp)

def nameEntry (k : RoomId × PeerId) (p : PeerItem) : RoomId × Text := (k.1, nameKey p.name)

def nonceEntry (_ : RoomId × PeerId) (p : PeerItem) : Hex32 := p.clientNonce

/-- What never changes about a peer. -/
structure SamePeer (p q : PeerItem) : Prop where
  peerId : p.peerId = q.peerId
  peerToken : p.peerToken = q.peerToken
  virtualIp : p.virtualIp = q.virtualIp
  name : p.name = q.name
  clientNonce : p.clientNonce = q.clientNonce
  joinedAtMs : p.joinedAtMs = q.joinedAtMs

theorem SamePeer.refl (p : PeerItem) : SamePeer p p := ⟨rfl, rfl, rfl, rfl, rfl, rfl⟩

theorem SamePeer.symm {p q : PeerItem} (h : SamePeer p q) : SamePeer q p :=
  ⟨h.1.symm, h.2.symm, h.3.symm, h.4.symm, h.5.symm, h.6.symm⟩

theorem SamePeer.trans {p q r : PeerItem} (h : SamePeer p q) (h' : SamePeer q r) : SamePeer p r :=
  ⟨h.1.trans h'.1, h.2.trans h'.2, h.3.trans h'.3, h.4.trans h'.4, h.5.trans h'.5, h.6.trans h'.6⟩

def PairItem.instant (pair : PairItem) : ℤ × ℤ × Text × ℤ :=
  (pair.readyAtWallMs, pair.readyAtMonoNs, pair.readyBootId, pair.punchDelayMs)

/-- A list that `sanitizeCandidates` stores: well formed, harmless and without duplicates. -/
structure CleanCandidates (list : List Candidate) : Prop where
  nonempty : list ≠ []
  short : list.length ≤ MAX_CANDIDATES
  sound : ∀ c ∈ list, c.port ≤ 65535 ∧ ∃ octets, parseIpv4 c.ip = some octets ∧
    sanitationReject octets c.port = false
  nodup : (list.map fun c => (parseIpv4 c.ip, c.port)).Nodup

structure Consistent (s : Shared) : Prop where
  vips : Exact s.table.peerAt s.table.vipOwner vipEntry
  names : Exact s.table.peerAt s.table.nameOwner nameEntry
  nonces : Exact s.table.peerAt s.table.nonceOwner nonceEntry
  keyed : ∀ k p, s.table.peerAt k = some p → p.peerId = k.2
  nonzero : ∀ k p, s.table.peerAt k = some p → p.peerId.val ≠ 0
  address : ∀ k p, s.table.peerAt k = some p → p.virtualIp ∈ HOST_VIRTUAL_IP :: PARTICIPANT_POOL
  clean : ∀ k p list, s.table.peerAt k = some p → p.candidates = some list → CleanCandidates list
  housed : ∀ k p, s.table.peerAt k = some p → (s.table.rooms.lookup k.1).isSome
  hosted : ∀ roomId room, s.table.rooms.lookup roomId = some room →
    ∃ p, s.table.peerAt (roomId, room.hostPeerId) = some p ∧ p.virtualIp = HOST_VIRTUAL_IP
  paired : ∀ roomId key pair, s.table.pairAt (roomId, key) = some pair →
    pair.punchDelayMs = PUNCH_DELAY_MS ∧ ∃ room other, s.table.rooms.lookup roomId = some room ∧
      other ≠ room.hostPeerId ∧ key = pairSk room.hostPeerId other ∧
      s.table.hasCandidates roomId room.hostPeerId = true ∧
      s.table.hasCandidates roomId other = true
  recorded : ∀ k p, s.table.peerAt k = some p → ∃ q, (k.1, q) ∈ s.issued ∧ SamePeer p q
  once : ∀ roomId p q, (roomId, p) ∈ s.issued → (roomId, q) ∈ s.issued → p.peerId = q.peerId → p = q
  known : ∀ roomId p, (roomId, p) ∈ s.issued → (s.table.rooms.lookup roomId).isSome

def Gone (s : Shared) (roomId : RoomId) (id : PeerId) : Prop :=
  ∃ p, (roomId, p) ∈ s.issued ∧ p.peerId = id ∧ s.table.peerAt (roomId, id) = none

/-- How the shared state may change under other requests: what was issued stays issued, rooms
stay with their host, a peer that is gone does not come back, and a pair goes only with its
peer. -/
structure Grows (s s' : Shared) : Prop where
  issued : ∀ x ∈ s.issued, x ∈ s'.issued
  rooms : ∀ roomId room, s.table.rooms.lookup roomId = some room →
    ∃ room', s'.table.rooms.lookup roomId = some room' ∧ room'.hostPeerId = room.hostPeerId
  gone : ∀ roomId p, (roomId, p) ∈ s.issued → s.table.peerAt (roomId, p.peerId) = none →
    s'.table.peerAt (roomId, p.peerId) = none
  pairs : ∀ roomId key pair, s.table.pairAt (roomId, key) = some pair →
    (∃ pair', s'.table.pairAt (roomId, key) = some pair' ∧ pair'.instant = pair.instant) ∨
    ∃ id, (id = key.1 ∨ id = key.2) ∧ Gone s' roomId id

theorem Gone.mono' {s s' : Shared} {roomId : RoomId} {id : PeerId}
    (hi : ∀ x ∈ s.issued, x ∈ s'.issued)
    (hg : ∀ roomId p, (roomId, p) ∈ s.issued → s.table.peerAt (roomId, p.peerId) = none →
      s'.table.peerAt (roomId, p.peerId) = none) (h : Gone s roomId id) : Gone s' roomId id := by
  obtain ⟨p, hp, rfl, hnone⟩ := h
  exact ⟨p, hi _ hp, rfl, hg _ p hp hnone⟩

theorem Gone.mono {s s' : Shared} {roomId : RoomId} {id : PeerId} (hg : Grows s s')
    (h : Gone s roomId id) :
    Gone s' roomId id := h.mono' hg.issued hg.gone

theorem Grows.refl (s : Shared) : Grows s s where
  issued _ h := h
  rooms _ room h := ⟨room, h, rfl⟩
  gone _ _ _ h := h
  pairs _ _ pair h := .inl ⟨pair, h, rfl⟩

theorem Grows.trans {s t u : Shared} (h : Grows s t) (h' : Grows t u) : Grows s u where
  issued x hx := h'.issued x (h.issued x hx)
  rooms roomId room hr := by
    obtain ⟨room', hr', he⟩ := h.rooms roomId room hr
    obtain ⟨room'', hr'', he'⟩ := h'.rooms roomId room' hr'
    exact ⟨room'', hr'', he'.trans he⟩
  gone roomId p hp hg := h'.gone roomId p (h.issued _ hp) (h.gone roomId p hp hg)
  pairs roomId key pair hpair := by
    rcases h.pairs roomId key pair hpair with ⟨pair', hpair', he⟩ | ⟨id, hkey, hgone⟩
    · rcases h'.pairs roomId key pair' hpair' with ⟨pair'', hpair'', he'⟩ | hgone
      · exact .inl ⟨pair'', hpair'', he'.trans he⟩
      · exact .inr hgone
    · exact .inr ⟨id, hkey, hgone.mono h'⟩

/-! ## What a call can do -/

/-- A peer's item rewritten in its lease, or with registered candidates. -/
structure PeerKept (p p' : PeerItem) : Prop where
  same : SamePeer p' p
  candidates : p'.candidates = p.candidates ∨ ∃ list, p'.candidates = some list ∧
    CleanCandidates list

theorem PeerKept.refl (p : PeerItem) : PeerKept p p := ⟨.refl p, .inl rfl⟩

/-- Items rewritten in place: none appears, none goes, and no owner changes. -/
structure Touched (t t' : Table) : Prop where
  rooms : ∀ roomId, (t'.rooms.lookup roomId).map RoomItem.hostPeerId =
    (t.rooms.lookup roomId).map RoomItem.hostPeerId
  peers : ∀ k, Option.Rel PeerKept (t.peerAt k) (t'.peerAt k)
  vips : t'.vipOwner = t.vipOwner
  names : t'.nameOwner = t.nameOwner
  nonces : t'.nonceOwner = t.nonceOwner
  pairs : ∀ k, (t'.pairAt k).map PairItem.instant = (t.pairAt k).map PairItem.instant

structure PeerPut (t t' : Table) (roomId : RoomId) (p : PeerItem) : Prop where
  free : t.Free roomId p
  fresh : p.peerId.val ≠ 0 ∧ p.candidates = none
  peers : t'.peerAt = Function.update t.peerAt (roomId, p.peerId) (some p)
  vips : t'.vipOwner =
    Function.update t.vipOwner (vipEntry (roomId, p.peerId) p) (some (roomId, p.peerId))
  names : t'.nameOwner =
    Function.update t.nameOwner (nameEntry (roomId, p.peerId) p) (some (roomId, p.peerId))
  nonces : t'.nonceOwner =
    Function.update t.nonceOwner (nonceEntry (roomId, p.peerId) p) (some (roomId, p.peerId))
  pairs : t'.pairAt = t.pairAt

/-- A peer and its own items taken away, with its pair. -/
structure PeerDropped (t t' : Table) (roomId : RoomId) (room : RoomItem) (p : PeerItem) : Prop where
  here : t.rooms.lookup roomId = some room
  notHost : p.peerId ≠ room.hostPeerId
  rooms : t'.rooms = t.rooms
  found : t.peerAt (roomId, p.peerId) = some p
  peers : t'.peerAt = Function.update t.peerAt (roomId, p.peerId) none
  vips : t'.vipOwner = Function.update t.vipOwner (vipEntry (roomId, p.peerId) p) none
  names : t'.nameOwner = Function.update t.nameOwner (nameEntry (roomId, p.peerId) p) none
  nonces : t'.nonceOwner = Function.update t.nonceOwner (nonceEntry (roomId, p.peerId) p) none
  pairs : t'.pairAt = Function.update t.pairAt (roomId, pairSk room.hostPeerId p.peerId) none

inductive Effect (s : Shared) : Shared → Prop where
  | touched {t : Table} {clock : ℤ} (h : Touched s.table t) : Effect s ⟨t, clock, s.issued⟩
  | created {t : Table} {clock : ℤ} {roomId : RoomId} {room : RoomItem} {p : PeerItem}
      (absent : s.table.rooms.lookup roomId = none) (put : PeerPut s.table t roomId p)
      (host : room.hostPeerId = p.peerId) (ip : p.virtualIp = HOST_VIRTUAL_IP)
      (rooms : ∀ r, t.rooms.lookup r = if r = roomId then some room else s.table.rooms.lookup r) :
      Effect s ⟨t, clock, s.issued ++ [(roomId, p)]⟩
  | joined {t : Table} {clock : ℤ} {roomId : RoomId} {p : PeerItem}
      (present : (s.table.rooms.lookup roomId).isSome) (put : PeerPut s.table t roomId p)
      (ip : p.virtualIp ∈ PARTICIPANT_POOL) (rooms : t.rooms = s.table.rooms)
      (unused : ∀ q, (roomId, q) ∈ s.issued → q.peerId ≠ p.peerId) :
      Effect s ⟨t, clock, s.issued ++ [(roomId, p)]⟩
  | dropped {t : Table} {clock : ℤ} {roomId : RoomId} {room : RoomItem} {p : PeerItem}
      (h : PeerDropped s.table t roomId room p) : Effect s ⟨t, clock, s.issued⟩
  | confirmed {t : Table} {clock : ℤ} {roomId : RoomId} {room : RoomItem} {other : PeerId}
      {pair : PairItem}
      (here : s.table.rooms.lookup roomId = some room) (distinct : other ≠ room.hostPeerId)
      (host : s.table.hasCandidates roomId room.hostPeerId = true)
      (peer : s.table.hasCandidates roomId other = true)
      (delay : pair.punchDelayMs = PUNCH_DELAY_MS)
      (absent : s.table.pairAt (roomId, pairSk room.hostPeerId other) = none)
      (h : t = { s.table with
        pairs := s.table.pairs.insert (roomId, pairSk room.hostPeerId other) pair }) :
      Effect s ⟨t, clock, s.issued⟩

theorem pairSk_injective {host a b : PeerId} (ha : a ≠ host) (hb : b ≠ host)
    (h : pairSk host a = pairSk host b) : a = b := by
  unfold pairSk at h
  split at h <;> split at h <;> obtain ⟨h₁, h₂⟩ := Prod.mk.inj h
  · exact h₂
  · exact absurd h₁.symm hb
  · exact absurd h₁ ha
  · exact h₁

theorem pairSk_mem {a b id : PeerId} (h : (pairSk a b).1 = id ∨ (pairSk a b).2 = id) :
    id = a ∨ id = b := by
  unfold pairSk at h
  split at h
  · exact h.imp Eq.symm Eq.symm
  · exact (h.imp Eq.symm Eq.symm).symm

theorem Table.hasCandidates_iff {t : Table} {roomId : RoomId} {id : PeerId} :
    t.hasCandidates roomId id = true ↔ ∃ p, t.peerAt (roomId, id) = some p ∧
    p.candidateList ≠ [] := by
  unfold hasCandidates peerAt PeerItem.candidateList
  cases h : t.peers.lookup (roomId, id) <;> simp

theorem rel_some {α : Type} {R : α → α → Prop} {a b : Option α} (h : Option.Rel R a b) {x : α}
    (ha : a = some x) : ∃ y, b = some y ∧ R x y := by
  subst ha
  cases h with
  | some hr => exact ⟨_, rfl, hr⟩

theorem rel_some' {α : Type} {R : α → α → Prop} {a b : Option α} (h : Option.Rel R a b) {y : α}
    (hb : b = some y) : ∃ x, a = some x ∧ R x y := by
  cases h with
  | some hr =>
    obtain rfl := Option.some.inj hb
    exact ⟨_, rfl, hr⟩
  | none => exact absurd hb (by simp)

theorem rel_imp {α : Type} {R S : α → α → Prop} {a b : Option α} (h : Option.Rel R a b)
    (hRS : ∀ x y, R x y → S x y) : Option.Rel S a b := by
  cases h with
  | some hr => exact .some (hRS _ _ hr)
  | none => exact .none

namespace Touched

variable {t t' : Table} (h : Touched t t')
include h

theorem room {roomId : RoomId} {room' : RoomItem} (hr : t'.rooms.lookup roomId = some room') :
    ∃ room, t.rooms.lookup roomId = some room ∧ room'.hostPeerId = room.hostPeerId := by
  have heq := h.rooms roomId
  rw [hr, Option.map_some] at heq
  obtain ⟨room, hroom, he⟩ := Option.map_eq_some_iff.mp heq.symm
  exact ⟨room, hroom, he.symm⟩

theorem room' {roomId : RoomId} {room : RoomItem} (hr : t.rooms.lookup roomId = some room) :
    ∃ room', t'.rooms.lookup roomId = some room' ∧ room'.hostPeerId = room.hostPeerId := by
  have heq := h.rooms roomId
  rw [hr, Option.map_some] at heq
  exact Option.map_eq_some_iff.mp heq

theorem hasCandidates {roomId : RoomId} {id : PeerId} (hc : t.hasCandidates roomId id = true) :
    t'.hasCandidates roomId id = true := by
  obtain ⟨p, hp, hne⟩ := Table.hasCandidates_iff.mp hc
  obtain ⟨p', hp', hk⟩ := rel_some (h.peers _) hp
  refine Table.hasCandidates_iff.mpr ⟨p', hp', ?_⟩
  unfold PeerItem.candidateList at hne ⊢
  rcases hk.candidates with he | ⟨list, hl, hclean⟩
  · rwa [he]
  · simpa [hl] using hclean.nonempty

theorem consistent {issued : List (RoomId × PeerItem)} {clock clock' : ℤ}
    (hc : Consistent ⟨t, clock, issued⟩) : Consistent ⟨t', clock', issued⟩ where
  vips := by
    have he : Exact t'.peerAt t.vipOwner vipEntry := hc.vips.congr fun k =>
      rel_imp (h.peers k) fun p p' hk => by simp [vipEntry, hk.same.virtualIp]
    simpa only [h.vips] using he
  names := by
    have he : Exact t'.peerAt t.nameOwner nameEntry := hc.names.congr fun k =>
      rel_imp (h.peers k) fun p p' hk => by simp [nameEntry, hk.same.name]
    simpa only [h.names] using he
  nonces := by
    have he : Exact t'.peerAt t.nonceOwner nonceEntry := hc.nonces.congr fun k =>
      rel_imp (h.peers k) fun p p' hk => by simp [nonceEntry, hk.same.clientNonce]
    simpa only [h.nonces] using he
  keyed k p' hp' := by
    obtain ⟨p, hp, hk⟩ := rel_some' (h.peers k) hp'
    exact hk.same.peerId.trans (hc.keyed k p hp)
  nonzero k p' hp' := by
    obtain ⟨p, hp, hk⟩ := rel_some' (h.peers k) hp'
    rw [hk.same.peerId]
    exact hc.nonzero k p hp
  address k p' hp' := by
    obtain ⟨p, hp, hk⟩ := rel_some' (h.peers k) hp'
    rw [hk.same.virtualIp]
    exact hc.address k p hp
  clean k p' list hp' hl := by
    obtain ⟨p, hp, hk⟩ := rel_some' (h.peers k) hp'
    rcases hk.candidates with he | ⟨list', hl', hclean⟩
    · exact hc.clean k p list hp (he ▸ hl)
    · obtain rfl : list = list' := Option.some.inj (hl.symm.trans hl')
      exact hclean
  housed k p' hp' := by
    obtain ⟨p, hp, -⟩ := rel_some' (h.peers k) hp'
    obtain ⟨room, hroom⟩ := Option.isSome_iff_exists.mp (hc.housed k p hp)
    obtain ⟨room', hroom', -⟩ := h.room' hroom
    exact Option.isSome_iff_exists.mpr ⟨room', hroom'⟩
  hosted roomId room' hroom' := by
    obtain ⟨room, hroom, he⟩ := h.room hroom'
    obtain ⟨p, hp, hip⟩ := hc.hosted roomId room hroom
    obtain ⟨p', hp', hk⟩ := rel_some (h.peers _) hp
    exact ⟨p', he ▸ hp', hk.same.virtualIp.trans hip⟩
  paired roomId key pair' hpair' := by
    have heq := h.pairs (roomId, key)
    rw [hpair', Option.map_some] at heq
    obtain ⟨pair, hpair, hinstant⟩ := Option.map_eq_some_iff.mp heq.symm
    have hdelay : pair.punchDelayMs = pair'.punchDelayMs := congrArg (fun i => i.2.2.2) hinstant
    obtain ⟨hd, room, other, hroom, hne, hkey, hhost, hother⟩ := hc.paired roomId key pair hpair
    obtain ⟨room', hroom', he⟩ := h.room' hroom
    refine ⟨hdelay ▸ hd, room', other, hroom', ?_⟩
    rw [he]
    exact ⟨hne, hkey, h.hasCandidates hhost, h.hasCandidates hother⟩
  recorded k p' hp' := by
    obtain ⟨p, hp, hk⟩ := rel_some' (h.peers k) hp'
    obtain ⟨q, hq, hsame⟩ := hc.recorded k p hp
    exact ⟨q, hq, hk.same.trans hsame⟩
  once := hc.once
  known roomId p hp := by
    obtain ⟨room, hroom⟩ := Option.isSome_iff_exists.mp (hc.known roomId p hp)
    obtain ⟨room', hroom', -⟩ := h.room' hroom
    exact Option.isSome_iff_exists.mpr ⟨room', hroom'⟩

theorem grows {issued : List (RoomId × PeerItem)} {clock clock' : ℤ} :
    Grows ⟨t, clock, issued⟩ ⟨t', clock', issued⟩ where
  issued _ hx := hx
  rooms _ _ hr := h.room' hr
  gone roomId p _ hg := by
    cases hp' : t'.peerAt (roomId, p.peerId) with
    | none => rfl
    | some p' =>
      obtain ⟨q, hq, -⟩ := rel_some' (h.peers _) hp'
      rw [hg] at hq
      cases hq
  pairs roomId key pair hpair := by
    have heq := h.pairs (roomId, key)
    rw [hpair, Option.map_some] at heq
    exact .inl (Option.map_eq_some_iff.mp heq)

end Touched

namespace PeerPut

variable {t t' : Table} {roomId : RoomId} {p : PeerItem} (h : PeerPut t t' roomId p)
include h

theorem records_none : t.peerAt (roomId, p.peerId) = none := h.free.peer

theorem peer_cases {k : RoomId × PeerId} {q : PeerItem} (hq : t'.peerAt k = some q) :
    (k = (roomId, p.peerId) ∧ q = p) ∨ (k ≠ (roomId, p.peerId) ∧ t.peerAt k = some q) := by
  rw [h.peers] at hq
  by_cases hk : k = (roomId, p.peerId)
  · subst hk
    rw [Function.update_self] at hq
    exact .inl ⟨rfl, (Option.some.inj hq).symm⟩
  · rw [Function.update_of_ne hk] at hq
    exact .inr ⟨hk, hq⟩

theorem kept {k : RoomId × PeerId} {q : PeerItem} (hq : t.peerAt k = some q) :
    t'.peerAt k = some q := by
  rw [h.peers, Function.update_of_ne, hq]
  rintro rfl
  rw [h.records_none] at hq
  cases hq

theorem hasCandidates {r : RoomId} {id : PeerId} (hc : t.hasCandidates r id = true) :
    t'.hasCandidates r id = true := by
  obtain ⟨q, hq, hne⟩ := Table.hasCandidates_iff.mp hc
  exact Table.hasCandidates_iff.mpr ⟨q, h.kept hq, hne⟩

theorem consistent {issued : List (RoomId × PeerItem)} {clock clock' : ℤ}
    (hc : Consistent ⟨t, clock, issued⟩)
    (haddr : p.virtualIp ∈ HOST_VIRTUAL_IP :: PARTICIPANT_POOL)
    (hhere : (t'.rooms.lookup roomId).isSome)
    (hrooms : ∀ r room, t.rooms.lookup r = some room → t'.rooms.lookup r = some room)
    (hhosted : ∀ r room, t'.rooms.lookup r = some room →
      ∃ q, t'.peerAt (r, room.hostPeerId) = some q ∧ q.virtualIp = HOST_VIRTUAL_IP)
    (hunused : ∀ q, (roomId, q) ∈ issued → q.peerId ≠ p.peerId) :
    Consistent ⟨t', clock', issued ++ [(roomId, p)]⟩ where
  vips := by
    have hnone : t.vipOwner (vipEntry (roomId, p.peerId) p) = none := by
      simp [Table.vipOwner, vipEntry, h.free.vip]
    simpa only [h.peers, h.vips] using hc.vips.put h.records_none hnone
  names := by
    have hnone : t.nameOwner (nameEntry (roomId, p.peerId) p) = none := by
      simp [Table.nameOwner, nameEntry, h.free.name]
    simpa only [h.peers, h.names] using hc.names.put h.records_none hnone
  nonces := by
    have hnone : t.nonceOwner (nonceEntry (roomId, p.peerId) p) = none := by
      simp [Table.nonceOwner, nonceEntry, h.free.nonce]
    simpa only [h.peers, h.nonces] using hc.nonces.put h.records_none hnone
  keyed k q hq := by
    rcases h.peer_cases hq with ⟨rfl, rfl⟩ | ⟨-, hq⟩
    · rfl
    · exact hc.keyed k q hq
  nonzero k q hq := by
    rcases h.peer_cases hq with ⟨rfl, rfl⟩ | ⟨-, hq⟩
    · exact h.fresh.1
    · exact hc.nonzero k q hq
  address k q hq := by
    rcases h.peer_cases hq with ⟨rfl, rfl⟩ | ⟨-, hq⟩
    · exact haddr
    · exact hc.address k q hq
  clean k q list hq hl := by
    rcases h.peer_cases hq with ⟨rfl, rfl⟩ | ⟨-, hq⟩
    · rw [h.fresh.2] at hl
      cases hl
    · exact hc.clean k q list hq hl
  housed k q hq := by
    rcases h.peer_cases hq with ⟨rfl, rfl⟩ | ⟨-, hq⟩
    · exact hhere
    · obtain ⟨room, hroom⟩ := Option.isSome_iff_exists.mp (hc.housed k q hq)
      exact Option.isSome_iff_exists.mpr ⟨room, hrooms _ _ hroom⟩
  hosted := hhosted
  paired r key pair hpair := by
    have hpair' : t.pairAt (r, key) = some pair := by rw [← h.pairs]; exact hpair
    obtain ⟨hd, room, other, hroom, hne, hkey, hhost, hother⟩ := hc.paired r key pair hpair'
    exact ⟨hd, room, other, hrooms _ _ hroom, hne, hkey, h.hasCandidates hhost,
      h.hasCandidates hother⟩
  recorded k q hq := by
    rcases h.peer_cases hq with ⟨rfl, rfl⟩ | ⟨-, hq⟩
    · exact ⟨q, by simp, .refl q⟩
    · obtain ⟨q', hq', hsame⟩ := hc.recorded k q hq
      exact ⟨q', by simp [hq'], hsame⟩
  once r q q' hq hq' he := by
    simp only [List.mem_append, List.mem_singleton, Prod.mk.injEq] at hq hq'
    rcases hq with hq | ⟨rfl, rfl⟩
    · rcases hq' with hq' | ⟨rfl, rfl⟩
      · exact hc.once r q q' hq hq' he
      · exact absurd he (hunused q hq)
    · rcases hq' with hq' | ⟨-, rfl⟩
      · exact absurd he.symm (hunused q' hq')
      · rfl
  known r q hq := by
    simp only [List.mem_append, List.mem_singleton, Prod.mk.injEq] at hq
    rcases hq with hq | ⟨rfl, rfl⟩
    · obtain ⟨room, hroom⟩ := Option.isSome_iff_exists.mp (hc.known r q hq)
      exact Option.isSome_iff_exists.mpr ⟨room, hrooms _ _ hroom⟩
    · exact hhere

theorem grows {issued : List (RoomId × PeerItem)} {clock clock' : ℤ}
    (hrooms : ∀ r room, t.rooms.lookup r = some room → t'.rooms.lookup r = some room)
    (hunused : ∀ q, (roomId, q) ∈ issued → q.peerId ≠ p.peerId) :
    Grows ⟨t, clock, issued⟩ ⟨t', clock', issued ++ [(roomId, p)]⟩ where
  issued _ hx := List.mem_append_left _ hx
  rooms r room hr := ⟨room, hrooms r room hr, rfl⟩
  gone r q hq hg := by
    show t'.peerAt (r, q.peerId) = none
    rw [h.peers, Function.update_of_ne, hg]
    rintro hk
    obtain ⟨rfl, hid⟩ := Prod.mk.inj hk
    exact hunused q hq hid
  pairs r key pair hpair := by
    refine .inl ⟨pair, ?_, rfl⟩
    show t'.pairAt (r, key) = some pair
    rw [h.pairs]
    exact hpair

end PeerPut

namespace PeerDropped

variable {t t' : Table} {roomId : RoomId} {room : RoomItem} {p : PeerItem}
  (h : PeerDropped t t' roomId room p)
include h

theorem peer_kept {k : RoomId × PeerId} {q : PeerItem} (hq : t'.peerAt k = some q) :
    k ≠ (roomId, p.peerId) ∧ t.peerAt k = some q := by
  rw [h.peers] at hq
  by_cases hk : k = (roomId, p.peerId)
  · subst hk
    rw [Function.update_self] at hq
    cases hq
  · rw [Function.update_of_ne hk] at hq
    exact ⟨hk, hq⟩

theorem other {k : RoomId × PeerId} (hk : k ≠ (roomId, p.peerId)) : t'.peerAt k = t.peerAt k := by
  rw [h.peers, Function.update_of_ne hk]

theorem consistent {issued : List (RoomId × PeerItem)} {clock clock' : ℤ}
    (hc : Consistent ⟨t, clock, issued⟩) : Consistent ⟨t', clock', issued⟩ where
  vips := by simpa only [h.peers, h.vips] using hc.vips.drop h.found
  names := by simpa only [h.peers, h.names] using hc.names.drop h.found
  nonces := by simpa only [h.peers, h.nonces] using hc.nonces.drop h.found
  keyed k q hq := hc.keyed k q (h.peer_kept hq).2
  nonzero k q hq := hc.nonzero k q (h.peer_kept hq).2
  address k q hq := hc.address k q (h.peer_kept hq).2
  clean k q list hq := hc.clean k q list (h.peer_kept hq).2
  housed k q hq := by
    show (t'.rooms.lookup k.1).isSome
    rw [h.rooms]
    exact hc.housed k q (h.peer_kept hq).2
  hosted r hostRoom hr := by
    have hr' : t.rooms.lookup r = some hostRoom := by rw [← h.rooms]; exact hr
    obtain ⟨q, hq, hip⟩ := hc.hosted r hostRoom hr'
    refine ⟨q, ?_, hip⟩
    rw [h.other, hq]
    rintro hk
    obtain ⟨rfl, hid⟩ := Prod.mk.inj hk
    rw [h.here] at hr'
    obtain rfl := Option.some.inj hr'
    exact h.notHost hid.symm
  paired r key pair hpair := by
    have hkey : (r, key) ≠ (roomId, pairSk room.hostPeerId p.peerId) := by
      intro he
      rw [h.pairs, he, Function.update_self] at hpair
      cases hpair
    have hpair' : t.pairAt (r, key) = some pair := by
      rw [h.pairs, Function.update_of_ne hkey] at hpair
      exact hpair
    obtain ⟨hd, room', other, hroom, hne, hk, hhost, hother⟩ := hc.paired r key pair hpair'
    have keep : ∀ id, t.hasCandidates r id = true → (r, id) ≠ (roomId, p.peerId) →
        t'.hasCandidates r id = true := by
      intro id hid hnot
      rw [Table.hasCandidates_iff, h.other hnot]
      exact Table.hasCandidates_iff.mp hid
    have same : r = roomId → room' = room := by
      rintro rfl
      have hroom' := h.here
      rw [hroom] at hroom'
      exact Option.some.inj hroom'
    refine ⟨hd, room', other, ?_, hne, hk, keep _ hhost ?_, keep _ hother ?_⟩
    · show t'.rooms.lookup r = some room'
      rw [h.rooms, hroom]
    · rintro he
      obtain ⟨hr, hid⟩ := Prod.mk.inj he
      rw [same hr] at hid
      exact h.notHost hid.symm
    · rintro he
      obtain ⟨hr, hid⟩ := Prod.mk.inj he
      refine hkey ?_
      rw [hk, same hr, hr, hid]
  recorded k q hq := hc.recorded k q (h.peer_kept hq).2
  once := hc.once
  known r q hq := by
    show (t'.rooms.lookup r).isSome
    rw [h.rooms]
    exact hc.known r q hq

theorem grows {issued : List (RoomId × PeerItem)} {clock clock' : ℤ}
    (hc : Consistent ⟨t, clock, issued⟩) : Grows ⟨t, clock, issued⟩ ⟨t', clock', issued⟩ where
  issued _ hx := hx
  rooms r room' hr := ⟨room', by show t'.rooms.lookup r = _; rw [h.rooms]; exact hr, rfl⟩
  gone r q _ hg := by
    cases hq : t'.peerAt (r, q.peerId) with
    | none => rfl
    | some q' =>
      have hq' := (h.peer_kept hq).2
      rw [hg] at hq'
      cases hq'
  pairs r key pair hpair := by
    by_cases hkey : (r, key) = (roomId, pairSk room.hostPeerId p.peerId)
    · obtain ⟨rfl, rfl⟩ := Prod.mk.inj hkey
      obtain ⟨q, hq, hsame⟩ := hc.recorded _ p h.found
      refine .inr ⟨p.peerId, ?_, q, hq, hsame.peerId.symm, ?_⟩
      · unfold pairSk
        split
        · exact .inr rfl
        · exact .inl rfl
      · show t'.peerAt (r, p.peerId) = none
        rw [h.peers, Function.update_self]
    · refine .inl ⟨pair, ?_, rfl⟩
      show t'.pairAt (r, key) = some pair
      rw [h.pairs, Function.update_of_ne hkey]
      exact hpair

end PeerDropped

theorem Effect.consistent {s s' : Shared} (h : Effect s s') (hc : Consistent s) :
    Consistent s' := by
  cases h with
  | touched h => exact h.consistent hc
  | @created t clock roomId room p absent put host ip rooms =>
    have hunused : ∀ q, (roomId, q) ∈ s.issued → q.peerId ≠ p.peerId := by
      intro q hq
      have hk := hc.known roomId q hq
      rw [absent] at hk
      cases hk
    have hrooms : ∀ r room', s.table.rooms.lookup r = some room' →
      t.rooms.lookup r = some room' := by
      intro r room' hr
      rw [rooms, if_neg, hr]
      rintro rfl
      rw [absent] at hr
      cases hr
    refine put.consistent hc (by simp [ip]) (by simp [rooms]) hrooms ?_ hunused
    intro r room' hr
    rw [rooms] at hr
    split at hr
    case isTrue heq =>
      obtain rfl := Option.some.inj hr
      refine ⟨p, ?_, ip⟩
      rw [host, heq, put.peers, Function.update_self]
    case isFalse =>
      obtain ⟨q, hq, hip⟩ := hc.hosted r room' hr
      exact ⟨q, put.kept hq, hip⟩
  | joined present put ip rooms unused =>
    refine put.consistent hc (by simp [ip]) (by rw [rooms]; exact present)
      (by simp [rooms]) ?_ unused
    intro r room' hr
    rw [rooms] at hr
    obtain ⟨q, hq, hip⟩ := hc.hosted r room' hr
    exact ⟨q, put.kept hq, hip⟩
  | dropped h => exact h.consistent hc
  | @confirmed t clock roomId room other pair here distinct host peer delay absent h =>
    subst h
    refine { hc with paired := ?_ }
    intro r key pair' hpair
    simp only [Table.pairAt] at hpair
    by_cases hk : (r, key) = (roomId, pairSk room.hostPeerId other)
    · obtain ⟨rfl, rfl⟩ := Prod.mk.inj hk
      rw [AList.lookup_insert] at hpair
      obtain rfl := Option.some.inj hpair
      exact ⟨delay, room, other, here, distinct, rfl, host, peer⟩
    · rw [AList.lookup_insert_ne hk] at hpair
      exact hc.paired r key pair' hpair

theorem Effect.grows {s s' : Shared} (h : Effect s s') (hc : Consistent s) : Grows s s' := by
  cases h with
  | touched h => exact h.grows
  | @created t clock roomId room p absent put host ip rooms =>
    refine put.grows ?_ ?_
    · intro r room' hr
      rw [rooms, if_neg, hr]
      rintro rfl
      rw [absent] at hr
      cases hr
    · intro q hq
      have hk := hc.known roomId q hq
      rw [absent] at hk
      cases hk
  | joined present put ip rooms unused => exact put.grows (by simp [rooms]) unused
  | dropped h => exact h.grows hc
  | @confirmed t clock roomId room other pair here distinct host peer delay absent h =>
    subst h
    refine ⟨fun _ hx => hx, fun _ room hr => ⟨room, hr, rfl⟩, fun _ _ _ hg => hg, ?_⟩
    intro r key pair' hpair
    refine .inl ⟨pair', ?_, rfl⟩
    have hk : (r, key) ≠ (roomId, pairSk room.hostPeerId other) := by
      intro hk
      rw [hk, absent] at hpair
      cases hpair
    simp only [Table.pairAt] at hpair ⊢
    rw [AList.lookup_insert_ne hk]
    exact hpair

/-! ## Each call has such an effect -/

def HostOf (s : Shared) (roomId : RoomId) (host : PeerId) : Prop :=
  ∃ room, s.table.rooms.lookup roomId = some room ∧ room.hostPeerId = host

def Named (s : Shared) (roomId : RoomId) (peer : PeerId) (vip : Text) (nonce : Hex32)
    (keys : List Text) :
    Prop :=
  ∃ p, (roomId, p) ∈ s.issued ∧ p.peerId = peer ∧ p.virtualIp = vip ∧ p.clientNonce = nonce ∧
    keys = [nameKey p.name]

/-- What a request has to know before it makes a call. -/
def Licensed (s : Shared) : Call → Prop
  | .createRoom _ host .. => host.val ≠ 0
  | .joinRoom _ vip peer .. => vip ∈ PARTICIPANT_POOL ∧ peer.val ≠ 0
  | .registerCandidates _ _ _ candidates => CleanCandidates candidates
  | .releasePeer roomId peer vip host nonce keys =>
    HostOf s roomId host ∧ peer ≠ host ∧ ∃ n, nonce = some n ∧ Named s roomId peer vip n keys
  | .reclaimPeer roomId peer vip nonce _ keys =>
    (∃ host, HostOf s roomId host ∧ peer ≠ host) ∧ Named s roomId peer vip nonce keys
  | .confirmPair roomId host other .. => HostOf s roomId host ∧ other ≠ host
  | _ => True

theorem HostOf.mono {s s' : Shared} {roomId : RoomId} {host : PeerId} (hg : Grows s s')
    (h : HostOf s roomId host) : HostOf s' roomId host := by
  obtain ⟨room, hr, rfl⟩ := h
  obtain ⟨room', hr', he⟩ := hg.rooms roomId room hr
  exact ⟨room', hr', he⟩

theorem Named.mono {s s' : Shared} {roomId : RoomId} {peer : PeerId} {vip : Text} {nonce : Hex32}
    {keys : List Text} (hg : Grows s s') (h : Named s roomId peer vip nonce keys) :
    Named s' roomId peer vip nonce keys := by
  obtain ⟨p, hp, hrest⟩ := h
  exact ⟨p, hg.issued _ hp, hrest⟩

theorem Licensed.mono {s s' : Shared} {c : Call} (hg : Grows s s') (h : Licensed s c) :
    Licensed s' c := by
  cases c with
  | releasePeer roomId peer vip host nonce keys =>
    obtain ⟨hhost, hne, n, hn, hnamed⟩ := h
    exact ⟨hhost.mono hg, hne, n, hn, hnamed.mono hg⟩
  | reclaimPeer roomId peer vip nonce now keys =>
    obtain ⟨⟨host, hhost, hne⟩, hnamed⟩ := h
    exact ⟨⟨host, hhost.mono hg, hne⟩, hnamed.mono hg⟩
  | confirmPair roomId host other wall mono boot expires => exact ⟨h.1.mono hg, h.2⟩
  | _ => exact h

theorem Touched.refl (t : Table) : Touched t t where
  rooms _ := rfl
  peers k := by
    cases t.peerAt k with
    | none => exact .none
    | some p => exact .some (.refl p)
  vips := rfl
  names := rfl
  nonces := rfl
  pairs _ := rfl

theorem peerPut_putPeer {t : Table} {roomId : RoomId} {p : PeerItem} (free : t.Free roomId p)
    (fresh : p.peerId.val ≠ 0 ∧ p.candidates = none) : PeerPut t (t.putPeer roomId p) roomId p where
  free := free
  fresh := fresh
  peers := lookup_insert (roomId, p.peerId) p t.peers
  vips := by
    funext i
    by_cases hi : i = (roomId, p.virtualIp)
    · subst hi
      simp [Table.vipOwner, Table.putPeer, vipEntry]
    · simp [Table.vipOwner, Table.putPeer, vipEntry, Function.update_of_ne hi,
        AList.lookup_insert_ne hi]
  names := by
    funext i
    by_cases hi : i = (roomId, nameKey p.name)
    · subst hi
      simp [Table.nameOwner, Table.putPeer, nameEntry]
    · simp [Table.nameOwner, Table.putPeer, nameEntry, Function.update_of_ne hi,
        AList.lookup_insert_ne hi]
  nonces := by
    funext i
    by_cases hi : i = p.clientNonce
    · subst hi
      simp [Table.nonceOwner, Table.putPeer, nonceEntry]
    · simp [Table.nonceOwner, Table.putPeer, nonceEntry, Function.update_of_ne hi,
        AList.lookup_insert_ne hi]
  pairs := rfl

theorem peerDropped_dropPeer {s : Shared} {roomId : RoomId} {room : RoomItem}
    {peer : PeerId} {vip : Text} {nonce : Hex32} {keys : List Text} {t' : Table} (hc : Consistent s)
    (here : s.table.rooms.lookup roomId = some room) (notHost : peer ≠ room.hostPeerId)
    (named : Named s roomId peer vip nonce keys)
    (found : (s.table.peers.lookup (roomId, peer)).isSome)
    (ht' : t' = s.table.dropPeer roomId peer vip keys (some nonce) ∧
        s.table.pairAt (roomId, pairSk room.hostPeerId peer) = none ∨
      t' = (s.table.dropPeer roomId peer vip keys (some nonce)).dropPair roomId
        (pairSk room.hostPeerId peer)) :
    ∃ p, p.peerId = peer ∧ PeerDropped s.table t' roomId room p := by
  obtain ⟨p, hp⟩ := Option.isSome_iff_exists.mp found
  obtain ⟨q, hq, rfl, rfl, rfl, rfl⟩ := named
  obtain ⟨q', hq', hsame⟩ := hc.recorded _ p hp
  have hid : p.peerId = q.peerId := hc.keyed _ p hp
  obtain rfl : q' = q := hc.once roomId q' q hq' hq (hsame.peerId.symm.trans hid)
  have hpairs : t'.pairAt =
    Function.update s.table.pairAt (roomId, pairSk room.hostPeerId p.peerId) none := by
    rcases ht' with ⟨rfl, hnone⟩ | rfl
    · rw [hid]
      exact (Function.update_eq_self_iff.mpr hnone.symm).symm
    · rw [hid]
      exact lookup_erase _ _
  have hrest : t'.rooms = s.table.rooms ∧ t'.peers = s.table.peers.erase (roomId, q'.peerId) ∧
      t'.vips = s.table.vips.erase (roomId, q'.virtualIp) ∧
      t'.names = s.table.names.erase (roomId, nameKey q'.name) ∧
      t'.nonces = s.table.nonces.erase q'.clientNonce := by
    rcases ht' with ⟨rfl, -⟩ | rfl
    · exact ⟨rfl, rfl, rfl, rfl, rfl⟩
    · exact ⟨rfl, rfl, rfl, rfl, rfl⟩
  refine ⟨p, hid, here, hid ▸ notHost, hrest.1, ?_, ?_, ?_, ?_, ?_, hpairs⟩
  · rw [hid]
    exact hp
  · rw [hid]
    funext k
    rw [Table.peerAt, hrest.2.1]
    exact congrFun (lookup_erase _ _) k
  · funext i
    rw [Table.vipOwner, hrest.2.2.1, vipEntry, hsame.virtualIp]
    by_cases hi : i = (roomId, q'.virtualIp)
    · subst hi
      simp
    · simp [Function.update_of_ne hi, AList.lookup_erase_ne hi, Table.vipOwner]
  · funext i
    rw [Table.nameOwner, hrest.2.2.2.1, nameEntry, hsame.name]
    by_cases hi : i = (roomId, nameKey q'.name)
    · subst hi
      simp
    · simp [Function.update_of_ne hi, AList.lookup_erase_ne hi, Table.nameOwner]
  · funext i
    rw [Table.nonceOwner, hrest.2.2.2.2, nonceEntry, hsame.clientNonce]
    by_cases hi : i = q'.clientNonce
    · subst hi
      simp
    · simp [Function.update_of_ne hi, AList.lookup_erase_ne hi, Table.nonceOwner]

/-- A peer without candidates has no pair. -/
theorem Consistent.no_pair {s : Shared} (hc : Consistent s) {roomId : RoomId} {room : RoomItem}
    {peer : PeerId} (here : s.table.rooms.lookup roomId = some room)
    (notHost : peer ≠ room.hostPeerId) (hnone : s.table.hasCandidates roomId peer ≠ true) :
    s.table.pairAt (roomId, pairSk room.hostPeerId peer) = none := by
  cases hpair : s.table.pairAt (roomId, pairSk room.hostPeerId peer) with
  | none => rfl
  | some pair =>
    obtain ⟨-, room', other, hroom, hne, hkey, -, hother⟩ := hc.paired roomId _ pair hpair
    rw [here] at hroom
    obtain rfl := Option.some.inj hroom
    obtain rfl := pairSk_injective notHost hne hkey
    exact absurd hother hnone

theorem touched_rooms {t : Table} {roomId : RoomId} {room room' : RoomItem}
    (h : t.rooms.lookup roomId = some room) (he : room'.hostPeerId = room.hostPeerId) :
    Touched t (t.putRoom roomId room') :=
  { Touched.refl t with rooms := map_lookup_rewrite RoomItem.hostPeerId h he }

theorem touched_peers {t : Table} {k : RoomId × PeerId} {p p' : PeerItem} (h : t.peerAt k = some p)
    (hk : PeerKept p p') : Touched t { t with peers := t.peers.insert k p' } :=
  { Touched.refl t with peers := rel_lookup_rewrite PeerKept.refl h hk }

theorem touched_vips {t : Table} {i : RoomId × Text} {claim : Claim} (ttl : ℤ)
    (h : t.vips.lookup i = some claim) :
    Touched t { t with vips := t.vips.insert i { claim with ttl := ttl } } :=
  { Touched.refl t with
    vips := by
      funext j
      have hsame : (j.1, ({ claim with ttl := ttl } : Claim).peerId) = (j.1, claim.peerId) := rfl
      exact map_lookup_rewrite (fun c : Claim => (j.1, c.peerId)) h hsame j }

theorem touched_names {t : Table} {i : RoomId × Text} {claim : Claim} (ttl : ℤ)
    (h : t.names.lookup i = some claim) :
    Touched t { t with names := t.names.insert i { claim with ttl := ttl } } :=
  { Touched.refl t with
    names := by
      funext j
      have hsame : (j.1, ({ claim with ttl := ttl } : Claim).peerId) = (j.1, claim.peerId) := rfl
      exact map_lookup_rewrite (fun c : Claim => (j.1, c.peerId)) h hsame j }

theorem touched_pairs {t : Table} {k : RoomId × PairKey} {pair : PairItem} (ttl : ℤ)
    (h : t.pairAt k = some pair) :
    Touched t { t with pairs := t.pairs.insert k { pair with ttl := ttl } } :=
  { Touched.refl t with pairs := map_lookup_rewrite PairItem.instant h rfl }

theorem renewItem_touched (t : Table) (roomId : RoomId) (sk : SortKey) (ttl : ℤ) :
    Touched t (t.renewItem roomId sk ttl).2 := by
  cases sk with
  | room =>
    simp only [Table.renewItem]
    split
    case h_1 room h => exact touched_rooms h rfl
    case h_2 => exact .refl t
  | peer id =>
    simp only [Table.renewItem]
    split
    case h_1 p h => exact touched_peers h ⟨⟨rfl, rfl, rfl, rfl, rfl, rfl⟩, .inl rfl⟩
    case h_2 => exact .refl t
  | vip ip =>
    simp only [Table.renewItem]
    split
    case h_1 claim h => exact touched_vips ttl h
    case h_2 => exact .refl t
  | name key =>
    simp only [Table.renewItem]
    split
    case h_1 claim h => exact touched_names ttl h
    case h_2 => exact .refl t
  | pair key =>
    simp only [Table.renewItem]
    split
    case h_1 pair h => exact touched_pairs ttl h
    case h_2 => exact .refl t

theorem registerCandidates_touched (t : Table) (roomId : RoomId) (peer : PeerId) (token : Hex32)
    {candidates : List Candidate} (hclean : CleanCandidates candidates) :
    Touched t (t.registerCandidates roomId peer token candidates).2 := by
  unfold Table.registerCandidates
  split
  case h_1 p h =>
    split
    case isTrue =>
      exact touched_peers h ⟨⟨rfl, rfl, rfl, rfl, rfl, rfl⟩, .inr ⟨candidates, rfl, hclean⟩⟩
    case isFalse => exact .refl t
  case h_2 => exact .refl t

theorem renewRoom_touched (t : Table) (roomId : RoomId) (now expires : ℤ) :
    Touched t (t.renewRoom roomId now expires).2 := by
  unfold Table.renewRoom
  split
  case h_1 room h =>
    split
    case isTrue => exact touched_rooms h rfl
    case isFalse => exact .refl t
  case h_2 => exact .refl t

theorem reclaimable_iff {t : Table} {roomId : RoomId} {peer : PeerId} {cutoff : ℤ}
    (h : t.reclaimable roomId peer cutoff = true) :
    (t.peers.lookup (roomId, peer)).isSome ∧ t.hasCandidates roomId peer ≠ true := by
  unfold Table.reclaimable at h
  unfold Table.hasCandidates
  cases hp : t.peers.lookup (roomId, peer) with
  | none => simp [hp] at h
  | some p =>
    simp only [hp, Bool.and_eq_true] at h
    simp [h.1]

theorem roomOpen_isSome {t : Table} {roomId : RoomId} {now : ℤ} (h : t.roomOpen roomId now = true) :
    (t.rooms.lookup roomId).isSome := by
  unfold Table.roomOpen at h
  cases hr : t.rooms.lookup roomId with
  | none => simp [hr] at h
  | some room => rfl

theorem exec_effect {s : Shared} {c : Call} {r : Reading} (hc : Consistent s) (hlic : Licensed s c)
    (hadm : NeverReused s c r) : Effect s (exec r c s).2 := by
  have same : ∀ clock, Effect s ⟨s.table, clock, s.issued⟩ := fun clock => .touched (.refl _)
  cases c with
  | nowMs => simpa [exec, execTable, issuedBy] using same r.wallMs
  | monoNs => simpa [exec, execTable, issuedBy] using same s.clock
  | bootId => simpa [exec, execTable, issuedBy] using same s.clock
  | newPeerId => simpa [exec, execTable, issuedBy] using same s.clock
  | newPeerToken => simpa [exec, execTable, issuedBy] using same s.clock
  | newRoomId => simpa [exec, execTable, issuedBy] using same s.clock
  | getNonce nonce => simpa [exec, execTable, issuedBy] using same s.clock
  | getRoom roomId => simpa [exec, execTable, issuedBy] using same s.clock
  | queryRoom roomId => simpa [exec, execTable, issuedBy] using same s.clock
  | createRoom roomId host token nonce now name =>
    rcases Table.createRoom_cases r.conflicts roomId host token nonce now name s.table with
      ⟨h, habsent, hfree⟩ | ⟨reply, h, hreply, -⟩
    · have hput := peerPut_putPeer (t := s.table.putRoom roomId (Table.newRoom now host))
        ⟨hfree.1, hfree.2, hfree.3, hfree.4⟩ ⟨hlic, rfl⟩
      simp only [exec, execTable, h, issuedBy]
      exact .created habsent
        ⟨hfree, hput.fresh, hput.peers, hput.vips, hput.names, hput.nonces, hput.pairs⟩
        (rfl : (Table.newRoom now host).hostPeerId = _) rfl (by
          intro r
          by_cases hr : r = roomId
          · subst hr
            simp [Table.putPeer, Table.putRoom]
          · simp [Table.putPeer, Table.putRoom, AList.lookup_insert_ne hr, hr])
    · have hnone : issuedBy (.createRoom roomId host token nonce now name) reply = none := by
        unfold issuedBy
        split <;> simp_all
      simpa [exec, execTable, h, hnone] using same s.clock
  | joinRoom roomId vip peer token nonce now expires name =>
    rcases Table.joinRoom_cases r.conflicts roomId vip peer token nonce now expires
      name s.table with
      ⟨h, hopen, hfree⟩ | ⟨reply, h, hreply, -⟩
    · simp only [exec, execTable, h, issuedBy]
      refine .joined (roomOpen_isSome hopen) (peerPut_putPeer hfree ⟨hlic.2, rfl⟩) hlic.1 rfl ?_
      intro q hq he
      rcases hadm with hsome | hnever
      · have hnone : s.table.peers.lookup (roomId, peer) = none := hfree.peer
        rw [hnone] at hsome
        cases hsome
      · exact hnever _ hq ⟨rfl, he⟩
    · have hnone :
        issuedBy (.joinRoom roomId vip peer token nonce now expires name) reply = none := by
        unfold issuedBy
        split <;> simp_all
      simpa [exec, execTable, h, hnone] using same s.clock
  | registerCandidates roomId peer token candidates =>
    simpa [exec, execTable, issuedBy] using Effect.touched (registerCandidates_touched _ _ _ _ hlic)
  | releasePeer roomId peer vip host nonce keys =>
    obtain ⟨⟨room, hroom, rfl⟩, hne, n, rfl, hnamed⟩ := hlic
    rcases Table.releasePeer_cases r.conflicts roomId peer vip room.hostPeerId
      (some n) keys s.table with
      ⟨h, hfound⟩ | ⟨reply, h, -⟩
    · obtain ⟨p, rfl, hdrop⟩ := peerDropped_dropPeer hc hroom hne hnamed hfound (.inr rfl)
      simpa [exec, execTable, issuedBy, h] using Effect.dropped hdrop
    · simpa [exec, execTable, issuedBy, h] using same s.clock
  | reclaimPeer roomId peer vip nonce now keys =>
    obtain ⟨⟨host, ⟨room, hroom, rfl⟩, hne⟩, hnamed⟩ := hlic
    rcases Table.reclaimPeer_cases r.conflicts roomId peer vip nonce now keys s.table with
      ⟨h, hreclaim⟩ | ⟨reply, h, -⟩
    · obtain ⟨hfound, hnone⟩ := reclaimable_iff hreclaim
      obtain ⟨p, rfl, hdrop⟩ := peerDropped_dropPeer hc hroom hne hnamed hfound
        (.inl ⟨rfl, hc.no_pair hroom hne hnone⟩)
      simpa [exec, execTable, issuedBy, h] using Effect.dropped hdrop
    · simpa [exec, execTable, issuedBy, h] using same s.clock
  | confirmPair roomId host other wall mono boot expires =>
    obtain ⟨⟨room, hroom, rfl⟩, hne⟩ := hlic
    rcases Table.confirmPair_cases r.conflicts roomId room.hostPeerId other wall mono boot
      expires s.table with
      ⟨h, hhost, hother, habsent⟩ | ⟨reply, h, -⟩
    · simpa [exec, execTable, issuedBy, h] using
        Effect.confirmed hroom hne hhost hother
          (rfl : (Table.pairItem wall mono boot expires).punchDelayMs = PUNCH_DELAY_MS) habsent rfl
    · simpa [exec, execTable, issuedBy, h] using same s.clock
  | renewRoom roomId now expires =>
    simpa [exec, execTable, issuedBy] using Effect.touched (renewRoom_touched _ _ _ _)
  | renewItem roomId sk ttl =>
    simpa [exec, execTable, issuedBy] using Effect.touched (renewItem_touched _ _ _ _)

/-- The discipline that every request keeps. -/
def rooms : AtomicPrograms.Discipline store NeverReused where
  Inv := Consistent
  Grows := Grows
  Licensed := Licensed
  refl := Grows.refl
  trans := Grows.trans
  licensed_mono := Licensed.mono
  exec hc hlic hadm :=
    ⟨(exec_effect hc hlic hadm).consistent hc, (exec_effect hc hlic hadm).grows hc⟩

theorem initial_consistent (clock : ℤ) : Consistent ⟨.empty, clock, []⟩ := by
  have hpeers : ∀ k, Table.empty.peerAt k = none := fun _ => rfl
  have hrooms : ∀ r, Table.empty.rooms.lookup r = none := fun _ => rfl
  have hpairs : ∀ k, Table.empty.pairAt k = none := fun _ => rfl
  have hvips : ∀ i, Table.empty.vipOwner i = none := fun _ => rfl
  have hnames : ∀ i, Table.empty.nameOwner i = none := fun _ => rfl
  have hnonces : ∀ n, Table.empty.nonceOwner n = none := fun _ => rfl
  constructor <;> simp [Exact, hpeers, hrooms, hpairs, hvips, hnames, hnonces]

end Sangtachi.Control
