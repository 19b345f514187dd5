import Sangtachi.Control.Store

/-! # What each write can do

A transaction commits with every condition true, or it leaves the table as it was and its answer
says which condition failed. One lemma a method says so in the method's own terms. -/
namespace Sangtachi.Control

theorem zip_reasonsFor (conflicts : List ℕ) (items : List TransactItem) :
    (items.map TransactItem.kind).zip (reasonsFor conflicts items) =
      items.mapIdx fun i item => (item.kind,
        if i ∈ conflicts then Reason.other else if item.holds then
          .none else .conditionalCheckFailed) := by
  refine List.ext_getElem (by simp [reasonsFor]) ?_
  intro i h₁ h₂
  simp [reasonsFor]

/-- The kinds whose condition failed, where the store reported no conflict on them. -/
def failedKinds (conflicts : List ℕ) (items : List TransactItem) : List Kind :=
  ((items.map TransactItem.kind).zip (reasonsFor conflicts items)).filterMap fun entry =>
    if entry.2 = .conditionalCheckFailed then some entry.1 else none

theorem mem_failedKinds {conflicts : List ℕ} {items : List TransactItem} {kind : Kind} :
    kind ∈ failedKinds conflicts items ↔
      ∃ (i : ℕ) (h : i < items.length), i ∉ conflicts ∧ items[i].holds = false ∧
        items[i].kind = kind := by
  rw [failedKinds, zip_reasonsFor]
  simp only [List.mem_filterMap, List.mem_mapIdx]
  constructor
  · rintro ⟨entry, ⟨i, hi, rfl⟩, hentry⟩
    refine ⟨i, hi, ?_⟩
    by_cases hc : i ∈ conflicts
    · simp [hc] at hentry
    · cases hh : items[i].holds <;> simp_all
  · rintro ⟨i, hi, hc, hh, hk⟩
    exact ⟨_, ⟨i, hi, rfl⟩, by simp [hc, hh, hk]⟩

theorem exists_failed {conflicts : List ℕ} {items : List TransactItem} {kind : Kind}
    (h : kind ∈ failedKinds conflicts items) :
    ∃ item ∈ items, item.kind = kind ∧ item.holds = false := by
  obtain ⟨i, hi, -, hh, hk⟩ := mem_failedKinds.mp h
  exact ⟨items[i], List.getElem_mem hi, hk, hh⟩

theorem reasonsFor_eq_none {conflicts : List ℕ} {items : List TransactItem}
    (h : (reasonsFor conflicts items).all (· = .none)) : ∀ item ∈ items, item.holds = true := by
  intro item hitem
  obtain ⟨i, hi, rfl⟩ := List.getElem_of_mem hitem
  simp only [List.all_eq_true, decide_eq_true_eq, reasonsFor, List.mem_mapIdx] at h
  have hi' := h _ ⟨i, hi, rfl⟩
  by_cases hc : i ∈ conflicts
  · simp [hc] at hi'
  · cases hh : items[i].holds with
    | true => rfl
    | false => simp [hc, hh] at hi'

theorem no_conflict {conflicts : List ℕ} {items : List TransactItem}
    (h : Reason.other ∉ reasonsFor conflicts items) {i : ℕ} (hi : i < items.length) :
    i ∉ conflicts := by
  intro hc
  refine h ?_
  rw [reasonsFor, List.mem_mapIdx]
  exact ⟨i, hi, by simp [hc]⟩

theorem classifyCancel_cases (conflicts : List ℕ) (items : List TransactItem)
    (priority : List Kind) :
    (∃ kind, classifyCancel (items.map TransactItem.kind)
      (reasonsFor conflicts items) priority = .ok kind ∧
      (kind = .nonce ∨ kind ∈ priority) ∧ (∃ item ∈ items, item.kind = kind ∧ item.holds = false) ∧
      (kind ≠ .nonce → ∀ item ∈ items, item.kind = .nonce → item.holds = true)) ∨
    (∃ e, classifyCancel (items.map TransactItem.kind)
      (reasonsFor conflicts items) priority = .error e ∧
      e.code = .internal) := by
  have hlen : ¬(reasonsFor conflicts items).length ≠ (items.map TransactItem.kind).length := by
    simp [reasonsFor]
  simp only [classifyCancel, if_neg hlen]
  rw [← failedKinds]
  by_cases hnonce : .nonce ∈ failedKinds conflicts items
  · rw [if_pos hnonce]
    exact .inl ⟨.nonce, rfl, .inl rfl, exists_failed hnonce, by simp⟩
  rw [if_neg hnonce]
  by_cases hother : .other ∈ reasonsFor conflicts items
  · rw [if_pos hother]
    exact .inr ⟨_, rfl, rfl⟩
  rw [if_neg hother]
  cases hfind : priority.find? (fun kind => decide (kind ∈ failedKinds conflicts items)) with
  | none => exact .inr ⟨_, rfl, rfl⟩
  | some kind =>
    have hmem : kind ∈ failedKinds conflicts items := by simpa using List.find?_some hfind
    refine .inl ⟨kind, rfl, .inr (List.mem_of_find?_eq_some hfind), exists_failed hmem, ?_⟩
    intro _ item hitem hkind
    obtain ⟨i, hi, rfl⟩ := List.getElem_of_mem hitem
    cases hh : items[i].holds with
    | true => rfl
    | false => exact absurd (mem_failedKinds.mpr ⟨i, hi, no_conflict hother hi, hh, hkind⟩) hnonce

theorem transact_cases (conflicts : List ℕ) (items : List TransactItem) (priority : List Kind)
    (t committed : Table) :
    (transact conflicts items priority t committed = (.ok none, committed) ∧
      ∀ item ∈ items, item.holds = true) ∨
    (∃ kind, transact conflicts items priority t committed = (.ok (some kind), t) ∧
      (kind = .nonce ∨ kind ∈ priority) ∧ (∃ item ∈ items, item.kind = kind ∧ item.holds = false) ∧
      (kind ≠ .nonce → ∀ item ∈ items, item.kind = .nonce → item.holds = true)) ∨
    (∃ e, transact conflicts items priority t committed = (.error e, t) ∧ e.code = .internal) := by
  unfold transact
  by_cases hall : (reasonsFor conflicts items).all (· = .none)
  · exact .inl ⟨by simp only [hall, if_true], reasonsFor_eq_none hall⟩
  · rcases classifyCancel_cases conflicts items priority with ⟨kind, hk, hrest⟩ | ⟨e, he, hcode⟩
    · exact .inr (.inl ⟨kind, by simp [hall, hk, Except.map], hrest⟩)
    · exact .inr (.inr ⟨e, by simp [hall, he, Except.map], hcode⟩)

namespace Table

/-- The peer that `create_room` puts. -/
def hostItem (hostPeerId : PeerId) (peerToken clientNonce : Hex32) (nowMs : ℤ)
    (name : Name) : PeerItem :=
  ⟨hostPeerId, peerToken, HOST_VIRTUAL_IP, name, clientNonce, nowMs,
    ttlFor (createdExpiresAt nowMs), none⟩

/-- The peer that `join_room` puts. -/
def joinItem (virtualIp : Text) (peerId : PeerId) (peerToken clientNonce : Hex32)
    (nowMs expiresAtMs : ℤ) (name : Name) :
    PeerItem :=
  ⟨peerId, peerToken, virtualIp, name, clientNonce, nowMs, ttlFor expiresAtMs, none⟩

/-- The keys of a new peer's items are all free. -/
structure Free (t : Table) (roomId : RoomId) (p : PeerItem) : Prop where
  peer : t.peers.lookup (roomId, p.peerId) = none
  vip : t.vips.lookup (roomId, p.virtualIp) = none
  name : t.names.lookup (roomId, nameKey p.name) = none
  nonce : t.nonces.lookup p.clientNonce = none

theorem createRoom_cases (conflicts : List ℕ) (roomId : RoomId) (host : PeerId)
    (token nonce : Hex32) (now : ℤ) (name : Name) (t : Table) :
    (t.createRoom conflicts roomId host token nonce now name =
        (.ok .created, (t.putRoom roomId (newRoom now host)).putPeer roomId
          (hostItem host token nonce now name)) ∧
      t.rooms.lookup roomId = none ∧ t.Free roomId (hostItem host token nonce now name)) ∨
    (∃ reply, t.createRoom conflicts roomId host token nonce now name = (reply, t) ∧
      reply ≠ .ok .created ∧
      (reply = .ok .nonceExists → (t.nonces.lookup nonce).isSome) ∧
      (reply = .ok .roomIdTaken → t.nonces.lookup nonce = none) ∧
      ∀ e, reply = .error e → e.code = .internal) := by
  unfold createRoom
  dsimp only
  rcases transact_cases conflicts _ CREATE_PRIORITY t
    _ with ⟨h, hall⟩ | ⟨kind, h, hkind, hfail, hnonce⟩ | ⟨e, h, he⟩
  · rw [h]
    simp only [List.mem_cons, List.not_mem_nil, or_false, forall_eq_or_imp, forall_eq,
      Option.isNone_iff_eq_none] at hall
    exact .inl ⟨rfl, hall.1, hall.2.1, hall.2.2.1, hall.2.2.2.1, hall.2.2.2.2⟩
  · rw [h]
    refine .inr ⟨_, rfl, ?_⟩
    rcases hkind with rfl | hkind
    · simp at hfail
      simp [Except.bind, hfail]
    · obtain rfl : kind = .roomPut := by simpa [CREATE_PRIORITY] using hkind
      have hfree := hnonce (by decide) _ (.tail _ (.tail _ (.tail _ (.tail _ (.head _))))) rfl
      simp only [Option.isNone_iff_eq_none] at hfree
      simp [Except.bind, hfree]
  · rw [h]
    exact .inr ⟨_, rfl, by simp [Except.bind], by simp [Except.bind], by simp [Except.bind], by
      rintro e' ⟨rfl⟩
      exact he⟩

theorem joinRoom_cases (conflicts : List ℕ) (roomId : RoomId) (vip : Text) (peer : PeerId)
    (token nonce : Hex32) (now expires : ℤ) (name : Name) (t : Table) :
    (t.joinRoom conflicts roomId vip peer token nonce now expires name =
        (.ok .joined, t.putPeer roomId (joinItem vip peer token nonce now expires name)) ∧
      t.roomOpen roomId now = true ∧
        t.Free roomId (joinItem vip peer token nonce now expires name)) ∨
    (∃ reply, t.joinRoom conflicts roomId vip peer token nonce now expires name = (reply, t) ∧
      reply ≠ .ok .joined ∧
      (reply = .ok .nonceExists → (t.nonces.lookup nonce).isSome) ∧
      (reply = .ok .nameTaken → (t.names.lookup (roomId, nameKey name)).isSome) ∧
      (reply = .ok .vipTaken → (t.vips.lookup (roomId, vip)).isSome) ∧
      (∀ result, reply = .ok result → result ≠ .nonceExists → t.nonces.lookup nonce = none) ∧
      ∀ e, reply = .error e → e.code = .internal) := by
  unfold joinRoom
  dsimp only
  rcases transact_cases conflicts _ JOIN_PRIORITY t
    _ with ⟨h, hall⟩ | ⟨kind, h, hkind, hfail, hnonce⟩ | ⟨e, h, he⟩
  · rw [h]
    simp only [List.mem_cons, List.not_mem_nil, or_false, forall_eq_or_imp, forall_eq,
      Option.isNone_iff_eq_none] at hall
    exact .inl ⟨rfl, hall.1, hall.2.2.2.1, hall.2.1, hall.2.2.1, hall.2.2.2.2⟩
  · rw [h]
    refine .inr ⟨_, rfl, ?_⟩
    by_cases hk : kind = .nonce
    · subst hk
      simp at hfail
      simp [Except.bind, Option.isSome_iff_ne_none, hfail]
    · have hfree := hnonce hk _ (.tail _ (.tail _ (.tail _ (.tail _ (.head _))))) rfl
      simp only [Option.isNone_iff_eq_none] at hfree
      rcases hkind with rfl | hkind
      · exact absurd rfl hk
      · simp only [JOIN_PRIORITY, List.mem_cons, List.not_mem_nil, or_false] at hkind
        rcases hkind with rfl | rfl | rfl | rfl
        all_goals
          simp at hfail
          simp [Except.bind, Option.isSome_iff_ne_none, hfree, hfail]
  · rw [h]
    exact .inr ⟨_, rfl, by simp [Except.bind], by simp [Except.bind], by simp [Except.bind],
      by simp [Except.bind], by simp [Except.bind], by
        rintro e' ⟨rfl⟩
        exact he⟩

theorem committedOnly_some (kind : Kind) : committedOnly (.ok (some kind)) = .ok false := rfl

theorem releasePeer_cases (conflicts : List ℕ) (roomId : RoomId) (peer : PeerId) (vip : Text)
    (host : PeerId) (nonce : Option Hex32) (keys : List Text) (t : Table) :
    (t.releasePeer conflicts roomId peer vip host nonce keys =
        (.ok true, (t.dropPeer roomId peer vip keys nonce).dropPair roomId (pairSk host peer)) ∧
      (t.peers.lookup (roomId, peer)).isSome) ∨
    (∃ reply, t.releasePeer conflicts roomId peer vip host nonce keys = (reply, t) ∧
      reply ≠ .ok true) := by
  unfold releasePeer
  dsimp only
  rcases transact_cases conflicts _ DELETE_PRIORITY t
    _ with ⟨h, hall⟩ | ⟨kind, h, -, -, -⟩ | ⟨e, h, -⟩
  · rw [h]
    exact .inl ⟨rfl, hall ⟨.peer, (t.peers.lookup (roomId, peer)).isSome⟩ (by simp)⟩
  · rw [h]
    exact .inr ⟨_, rfl, by simp [committedOnly_some]⟩
  · rw [h]
    exact .inr ⟨_, rfl, by simp [committedOnly, Except.map]⟩

theorem reclaimPeer_cases (conflicts : List ℕ) (roomId : RoomId) (peer : PeerId) (vip : Text)
    (nonce : Hex32) (now : ℤ) (keys : List Text) (t : Table) :
    (t.reclaimPeer conflicts roomId peer vip nonce now keys =
        (.ok true, t.dropPeer roomId peer vip keys (some nonce)) ∧
      t.reclaimable roomId peer (now - JOIN_REGISTER_GRACE_S * 1000) = true) ∨
    (∃ reply, t.reclaimPeer conflicts roomId peer vip nonce now keys = (reply, t) ∧
      reply ≠ .ok true) := by
  unfold reclaimPeer
  dsimp only
  rcases transact_cases conflicts _ DELETE_PRIORITY t
    _ with ⟨h, hall⟩ | ⟨kind, h, -, -, -⟩ | ⟨e, h, -⟩
  · rw [h]
    exact .inl ⟨rfl, hall _ (.head _)⟩
  · rw [h]
    exact .inr ⟨_, rfl, by simp [committedOnly_some]⟩
  · rw [h]
    exact .inr ⟨_, rfl, by simp [committedOnly, Except.map]⟩

/-- The pair that `confirm_pair` puts. -/
def pairItem (wall mono : ℤ) (boot : Text) (expires : ℤ) : PairItem :=
  ⟨wall, mono, boot, PUNCH_DELAY_MS, ttlFor expires⟩

theorem confirmPair_cases (conflicts : List ℕ) (roomId : RoomId) (host other : PeerId)
    (wall mono : ℤ) (boot : Text) (expires : ℤ) (t : Table) :
    (t.confirmPair conflicts roomId host other wall mono boot expires =
        (.ok .confirmed,
          { t with pairs := t.pairs.insert (roomId,
            pairSk host other) (pairItem wall mono boot expires) }) ∧
      t.hasCandidates roomId host = true ∧ t.hasCandidates roomId other = true ∧
      t.pairs.lookup (roomId, pairSk host other) = none) ∨
    (∃ reply, t.confirmPair conflicts roomId host other wall mono boot expires = (reply, t) ∧
      reply ≠ .ok .confirmed) := by
  unfold confirmPair
  dsimp only
  rcases transact_cases conflicts _ CONFIRM_PRIORITY t
    _ with ⟨h, hall⟩ | ⟨kind, h, hkind, -, -⟩ | ⟨e, h, -⟩
  · rw [h]
    simp only [List.mem_cons, List.not_mem_nil, or_false, forall_eq_or_imp, forall_eq,
      Option.isNone_iff_eq_none] at hall
    exact .inl ⟨rfl, hall⟩
  · rw [h]
    refine .inr ⟨_, rfl, ?_⟩
    cases kind <;> simp [Except.bind]
  · rw [h]
    exact .inr ⟨_, rfl, by simp [Except.bind]⟩

end Table

end Sangtachi.Control
