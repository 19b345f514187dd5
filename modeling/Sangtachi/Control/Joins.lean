import Mathlib.Data.List.Chain
import Sangtachi.Control.Calls

/-! # The requests that issue a place

`create_room` and `join_room` under any interleaving: each call is licensed, and the answer is
explained by what the calls of the request found. -/
namespace Sangtachi.Control

open AtomicPrograms UniqueIndex

def Quiet (past : Past) : Prop := ∀ e ∈ past, e.after.table = e.before.table

theorem Quiet.snoc {past : Past} {e : Event store} (h : Quiet past)
    (he : e.after.table = e.before.table) :
    Quiet (past ++ [e]) := by
  intro x hx
  rcases List.mem_append.mp hx with hx | hx
  · exact h x hx
  · obtain rfl := List.mem_singleton.mp hx
    exact he

/-- The peer that an answer names is in the room, with the nonce of the request. -/
def Holds (s : Shared) (nonce : Hex32) (i : Issued) : Prop :=
  0 ≤ i.expiresInS ∧ ∃ p, s.table.peerAt (i.roomId, i.peerId) = some p ∧ p.peerToken = i.peerToken ∧
    p.virtualIp = i.virtualIp ∧ p.clientNonce = nonce

/-- A transaction of the request found the address claimed. -/
def Claimed (roomId : RoomId) (ip : Text) (e : Event store) : Prop :=
  (∃ peer token nonce now expires name,
    e.call = .joinRoom roomId ip peer token nonce now expires name) ∧
  (e.before.table.vips.lookup (roomId, ip)).isSome

/-- A transaction of the request found its name key claimed by a peer with another nonce. -/
def NameClaimed (roomId : RoomId) (name : Name) (nonce : Hex32) (e : Event store) : Prop :=
  (∃ ip peer token now expires, e.call = .joinRoom roomId ip peer token nonce now expires name) ∧
  ∃ owner p, e.before.table.nameOwner (roomId, nameKey name) = some (roomId, owner) ∧
    e.before.table.peerAt (roomId, owner) = some p ∧ p.clientNonce ≠ nonce

/-- The last call put the peer, after every lower address of the pool was found claimed. -/
def Walked (roomId : RoomId) (nonce : Hex32) (past : Past) (i : Issued) : Prop :=
  ∃ (pre : Past) (e : Event store) (lower rest : List Text), past = pre ++ [e] ∧ Quiet pre ∧
    (∃ now expires name,
      e.call = .joinRoom roomId i.virtualIp i.peerId i.peerToken nonce now expires name) ∧
    PARTICIPANT_POOL = lower ++ i.virtualIp :: rest ∧
    ∀ ip ∈ lower, ∃ e' ∈ pre, Claimed roomId ip e'

def Local (roomId : RoomId) (nonce : Hex32) (past : Past) : Prop :=
  ∀ e ∈ past, e.call = .getNonce nonce → ∀ found, e.before.table.nonces.lookup nonce = some found →
    found.roomId = roomId

theorem Local.snoc {roomId : RoomId} {nonce : Hex32} {past : Past} {e : Event store}
    (h : Local roomId nonce past)
    (he : e.call = .getNonce nonce → ∀ found, e.before.table.nonces.lookup nonce = some found →
      found.roomId = roomId) : Local roomId nonce (past ++ [e]) := by
  intro x hx
  rcases List.mem_append.mp hx with hx | hx
  · exact h x hx
  · obtain rfl := List.mem_singleton.mp hx
    exact he

/-- A transaction of the request was cancelled on the condition of the nonce. -/
def NonceConflict (roomId : RoomId) (nonce : Hex32) (e : Event store) : Prop :=
  ∃ ip peer token now expires name, e.call = .joinRoom roomId ip peer token nonce now expires name ∧
    (e.before.table.joinRoom e.reading.conflicts roomId ip peer token nonce now expires name).1 =
      .ok .nonceExists

/-- Every conflict on the nonce is followed by a read of the nonce. -/
structure Reread (roomId : RoomId) (nonce : Hex32) (past : Past) : Prop where
  next : past.IsChain fun e e' => NonceConflict roomId nonce e → e'.call = .getNonce nonce
  last : ∀ e ∈ past.getLast?, ¬NonceConflict roomId nonce e

theorem Reread.snoc {roomId : RoomId} {nonce : Hex32} {past : Past} {e : Event store}
    (h : Reread roomId nonce past) (he : ¬NonceConflict roomId nonce e) :
    Reread roomId nonce (past ++ [e]) where
  next := by
    refine List.isChain_append.mpr ⟨h.next, List.isChain_singleton _, ?_⟩
    intro x hx y _ hconflict
    exact absurd hconflict (h.last x hx)
  last x hx := by
    obtain rfl : e = x := by simpa using hx
    exact he

theorem Reread.conflict {roomId : RoomId} {nonce : Hex32} {past : Past} {e e' : Event store}
    (h : Reread roomId nonce past) (he' : e'.call = .getNonce nonce) :
    Reread roomId nonce (past ++ [e] ++ [e']) where
  next := by
    refine List.isChain_append.mpr ⟨?_, List.isChain_singleton _, ?_⟩
    · refine List.isChain_append.mpr ⟨h.next, List.isChain_singleton _, ?_⟩
      intro x hx y _ hconflict
      exact absurd hconflict (h.last x hx)
    · intro x _ y hy _
      obtain rfl : e' = y := by simpa using hy
      exact he'
  last x hx := by
    obtain rfl : e' = x := by simpa using hx
    rintro ⟨ip, peer, token, now, expires, name, hcall, -⟩
    rw [he'] at hcall
    cases hcall

theorem not_conflict {roomId : RoomId} {nonce : Hex32} {e : Event store}
    (h : ∀ ip peer token now expires name,
      e.call ≠ .joinRoom roomId ip peer token nonce now expires name) :
    ¬NonceConflict roomId nonce e := by
  rintro ⟨ip, peer, token, now, expires, name, hcall, -⟩
  exact h ip peer token now expires name hcall

/-- What the answer of `join_room` means. -/
structure JoinAnswer (roomId : RoomId) (nonce : Hex32) (name : Name) (past : Past) (s : Shared)
    (result : Except OpError Issued) : Prop where
  failed : ∀ err, result = .error err → Quiet past
  full : ∀ err, result = .error err → err.code = .roomFull →
    ∀ ip ∈ PARTICIPANT_POOL, ∃ e ∈ past, Claimed roomId ip e
  taken : ∀ err, result = .error err → err.code = .nameTaken →
    ∃ e ∈ past, NameClaimed roomId name nonce e
  success : ∀ i, result = .ok i →
    i.roomId = roomId ∧ Holds s nonce i ∧ (Quiet past ∨ Walked roomId nonce past i)
  elsewhere : ¬Local roomId nonce past → ∃ err, result = .error err ∧ err.code = .badRequest
  reread : Reread roomId nonce past

/-- What the answer of `create_room` means. -/
structure CreateAnswer (nonce : Hex32) (past : Past) (s : Shared) (result : Except OpError Issued) :
    Prop where
  failed : ∀ err, result = .error err → Quiet past ∧ err.code ≠ .roomFull ∧ err.code ≠ .nameTaken
  success : ∀ i, result = .ok i → Holds s nonce i

theorem JoinAnswer.error {roomId : RoomId} {nonce : Hex32} {name : Name} {past : Past} {s : Shared}
    {err : OpError} (hquiet : Quiet past) (hfull : err.code ≠ .roomFull)
    (htaken : err.code ≠ .nameTaken) (hlocal : Local roomId nonce past ∨ err.code = .badRequest)
    (hreread : Reread roomId nonce past) :
    JoinAnswer roomId nonce name past s (.error err) where
  reread := hreread
  failed _ _ := hquiet
  full := by
    rintro _ ⟨rfl⟩ h
    exact absurd h hfull
  taken := by
    rintro _ ⟨rfl⟩ h
    exact absurd h htaken
  success := by
    rintro i ⟨⟩
  elsewhere hnot := ⟨err, rfl, hlocal.resolve_left hnot⟩

theorem CreateAnswer.error {nonce : Hex32} {past : Past} {s : Shared} {err : OpError}
    (hquiet : Quiet past)
    (hcode : err.code = .roomNotFound ∨ err.code = .roomExpired ∨ err.code = .internal) :
    CreateAnswer nonce past s (.error err) where
  failed := by
    rintro _ ⟨rfl⟩
    refine ⟨hquiet, ?_, ?_⟩ <;> rcases hcode with h | h | h <;> simp [h]
  success := by
    rintro i ⟨⟩

theorem checkRoom_cases (room : Option RoomItem) (now : ℤ) :
    (∃ r, room = some r ∧ now < r.expiresAtMs ∧ checkRoom room now = .ok r) ∨
    (∃ r, room = some r ∧ r.expiresAtMs ≤ now ∧ checkRoom room now = .error roomExpired) ∨
    (room = none ∧ checkRoom room now = .error roomNotFound) := by
  cases room with
  | none => exact .inr (.inr ⟨rfl, rfl⟩)
  | some r =>
    by_cases h : now < r.expiresAtMs
    · exact .inl ⟨r, rfl, h, by simp [checkRoom, roomState, h]⟩
    · exact .inr (.inl ⟨r, rfl, by omega, by simp [checkRoom, roomState, h]⟩)

def IssuedTo (s : Shared) (nonce : Hex32) (found : NonceItem) : Prop :=
  ∃ p, (found.roomId, p) ∈ s.issued ∧ p.peerId = found.peerId ∧ p.clientNonce = nonce

theorem IssuedTo.mono {s s' : Shared} {nonce : Hex32} {found : NonceItem} (hg : Grows s s')
    (h : IssuedTo s nonce found) : IssuedTo s' nonce found := by
  obtain ⟨p, hp, hrest⟩ := h
  exact ⟨p, hg.issued _ hp, hrest⟩

theorem issuedTo_of_lookup {s : Shared} {nonce : Hex32} {found : NonceItem} (hc : Consistent s)
    (h : s.table.nonces.lookup nonce = some found) : IssuedTo s nonce found := by
  have howner : s.table.nonceOwner nonce = some (found.roomId, found.peerId) := by
    simp [Table.nonceOwner, h]
  obtain ⟨p, hp, he⟩ := (hc.nonces _ _).mp howner
  obtain ⟨q, hq, hsame⟩ := hc.recorded _ p hp
  exact ⟨q, hq, hsame.peerId.symm.trans (hc.keyed _ p hp), hsame.clientNonce.symm.trans he⟩

theorem IssuedTo.holder {s : Shared} {nonce : Hex32} {found : NonceItem} {p : PeerItem}
    (hc : Consistent s) (h : IssuedTo s nonce found)
    (hp : s.table.peerAt (found.roomId, found.peerId) = some p) :
    p.peerId = found.peerId ∧ p.clientNonce = nonce := by
  obtain ⟨q, hq, hid, hn⟩ := h
  obtain ⟨q', hq', hsame⟩ := hc.recorded _ p hp
  have hkey : p.peerId = found.peerId := hc.keyed _ p hp
  obtain rfl := hc.once _ q q' hq hq' (hid.trans (hkey.symm.trans hsame.peerId))
  exact ⟨hkey, hsame.clientNonce.trans hn⟩

theorem expiresInS_nonneg (expiresAtMs now : ℤ) : 0 ≤ expiresInS expiresAtMs now := le_max_left ..

theorem replay_safe {Q : Past → Shared → Except OpError Issued → Prop} {nonce : Hex32}
    {found : NonceItem} {now : ℤ} {past : Past} {s : Shared} (hissued : IssuedTo s nonce found)
    (herr : ∀ e s' err, e.call = .queryRoom found.roomId → e.after = e.before →
      err.code = .roomNotFound ∨ err.code = .roomExpired ∨ err.code = .internal →
      Q (past ++ [e]) s' (.error err))
    (hok : ∀ e s' i, e.call = .queryRoom found.roomId → e.after = e.before →
      i.roomId = found.roomId →
      Holds s' nonce i → Q (past ++ [e]) s' (.ok i)) :
    rooms.Safe Q (Service.replay found now) past s := by
  refine safe_read (readOnly_queryRoom found.roomId) ?_
  intro before r hgrow hinv
  have hafter := (readOnly_queryRoom found.roomId).after before r
  refine safe_ofExcept ?_ ?_
  · intro e he
    rcases checkRoom_cases (queryRoom before.table found.roomId).room now with
      ⟨room, -, -, h⟩ | ⟨room, -, -, h⟩ | ⟨-, h⟩
    · rw [h] at he
      cases he
    · obtain rfl : roomExpired = e := by simpa [h] using he
      exact herr _ _ _ rfl hafter (.inr (.inl rfl))
    · obtain rfl : roomNotFound = e := by simpa [h] using he
      exact herr _ _ _ rfl hafter (.inl rfl)
  · intro room hroom
    cases hp : (queryRoom before.table found.roomId).peer found.peerId with
    | none => exact herr _ _ _ rfl hafter (.inr (.inr rfl))
    | some p =>
      have hat := (view_peer_iff hinv).mp hp
      obtain ⟨hid, hn⟩ := (hissued.mono hgrow).holder hinv hat
      refine hok _ _ _ rfl hafter rfl ⟨expiresInS_nonneg _ _, p, ?_, rfl, rfl, hn⟩
      simp only [issuedOf, hid]
      exact hat

theorem reread_safe {Q : Past → Shared → Except OpError Issued → Prop} {nonce : Hex32} {past : Past}
    {s : Shared} {next : NonceItem → Handler Issued}
    (herr : ∀ e s' err, e.call = .getNonce nonce → e.after = e.before →
      e.before.table.nonces.lookup nonce = none → err.code = .internal →
      Q (past ++ [e]) s' (.error err))
    (hnext : ∀ e s' found, e.call = .getNonce nonce → e.after = e.before →
      e.before.table.nonces.lookup nonce = some found → IssuedTo s' nonce found →
      rooms.Safe Q (next found) (past ++ [e]) s') :
    rooms.Safe Q (Service.rereadNonce nonce >>= next) past s := by
  refine safe_read (readOnly_getNonce nonce) ?_
  intro before r hgrow hinv
  have hafter := (readOnly_getNonce nonce).after before r
  cases hfound : before.table.nonces.lookup nonce with
  | none => exact herr _ _ _ rfl hafter hfound rfl
  | some found => exact hnext _ _ found rfl hafter hfound (issuedTo_of_lookup hinv hfound)

theorem createAttempts_safe {nonce : Hex32} {name : Name} {now : ℤ} {hostId : PeerId}
    {token : Hex32} (hid : hostId.val ≠ 0) (left : ℕ) {past : Past} {s : Shared}
    (hquiet : Quiet past) :
    rooms.Safe (CreateAnswer nonce)
    (Service.createAttempts nonce name now hostId token left) past s := by
  induction left generalizing past s with
  | zero => exact CreateAnswer.error hquiet (.inr (.inr rfl))
  | succ left ih =>
    refine safe_read readOnly_newRoomId ?_
    intro before r hgrow hinv
    have hquiet₁ : Quiet (past ++ [⟨before, r, .newRoomId⟩]) := hquiet.snoc rfl
    refine safe_createRoom hid ?_ ?_ ?_
    · intro before r after _ _ _ _ hat
      refine ⟨by rintro _ ⟨⟩, ?_⟩
      rintro i ⟨rfl⟩
      exact ⟨expiresInS_nonneg _ _, _, hat, rfl, rfl, rfl⟩
    · intro before r result _ _ hne hafter
      have hquiet₂ := hquiet₁.snoc (congrArg Shared.table hafter)
      cases result with
      | created => exact absurd rfl hne
      | roomIdTaken => exact ih hquiet₂
      | nonceExists =>
        refine reread_safe ?_ ?_
        · intro e s' err _ hafter' _ hcode
          exact CreateAnswer.error (hquiet₂.snoc (congrArg Shared.table hafter'))
            (.inr (.inr hcode))
        · intro e s' found _ hafter' _ hissued
          have hquiet₃ := hquiet₂.snoc (congrArg Shared.table hafter')
          refine replay_safe hissued ?_ ?_
          · intro e' s'' err _ hafter'' hcode
            exact CreateAnswer.error (hquiet₃.snoc (congrArg Shared.table hafter'')) hcode
          · intro e' s'' i _ _ _ hholds
            exact ⟨by rintro _ ⟨⟩, by rintro _ ⟨rfl⟩; exact hholds⟩
    · intro before r e hcode hafter
      exact CreateAnswer.error (hquiet₁.snoc (congrArg Shared.table hafter)) (.inr (.inr hcode))

/-- Where the address walk stands: no write yet, and every address before this point was found
claimed. -/
structure Walking (roomId : RoomId) (nonce : Hex32) (past : Past) (pool : List Text) : Prop where
  quiet : Quiet past
  home : Local roomId nonce past
  reread : Reread roomId nonce past
  claimed : ∃ lower, PARTICIPANT_POOL = lower ++ pool ∧ ∀ ip ∈ lower, ∃ e ∈ past,
    Claimed roomId ip e

theorem Walking.snoc {roomId : RoomId} {nonce : Hex32} {past : Past} {pool : List Text}
    {e : Event store} (h : Walking roomId nonce past pool) (hafter : e.after = e.before)
    (hcall : e.call ≠ .getNonce nonce) (hconflict : ¬NonceConflict roomId nonce e) :
    Walking roomId nonce (past ++ [e]) pool where
  reread := h.reread.snoc hconflict
  quiet := h.quiet.snoc (congrArg Shared.table hafter)
  home := h.home.snoc fun h => absurd h hcall
  claimed := by
    obtain ⟨lower, hsplit, hall⟩ := h.claimed
    refine ⟨lower, hsplit, ?_⟩
    intro ip hip
    obtain ⟨e', he', hc⟩ := hall ip hip
    exact ⟨e', List.mem_append_left _ he', hc⟩

theorem replayJoin_safe {roomId : RoomId} {nonce : Hex32} {name : Name} {now : ℤ}
    {found : NonceItem} {past : Past} {e : Event store} {s : Shared} (hquiet : Quiet past)
    (hhome : Local roomId nonce past) (hreread : Reread roomId nonce (past ++ [e]))
    (hafter : e.after = e.before)
    (hfound : e.before.table.nonces.lookup nonce = some found) (hissued : IssuedTo s nonce found) :
    rooms.Safe (JoinAnswer roomId nonce name) (Service.replayJoin found roomId now)
    (past ++ [e]) s := by
  have hquiet' : Quiet (past ++ [e]) := hquiet.snoc (congrArg Shared.table hafter)
  unfold Service.replayJoin
  split
  case isTrue hne =>
    exact JoinAnswer.error hquiet' (by simp [badRequest, opError])
      (by simp [badRequest, opError]) (.inr rfl)
      hreread
  case isFalse heq =>
    have hroom : found.roomId = roomId := not_not.mp heq
    have hhome' : Local roomId nonce (past ++ [e]) := by
      refine hhome.snoc ?_
      intro _ found' hfound'
      rw [hfound] at hfound'
      obtain rfl := Option.some.inj hfound'
      exact hroom
    refine replay_safe hissued ?_ ?_
    · intro e' s' err hcall hafter' hcode
      have hother : e'.call ≠ .getNonce nonce := by simp [hcall]
      have hread' := hreread.snoc (not_conflict (e := e') (by simp [hcall]))
      refine JoinAnswer.error (hquiet'.snoc (congrArg Shared.table hafter')) ?_ ?_
        (.inl (hhome'.snoc fun h => absurd h hother)) hread'
      · rcases hcode with h | h | h <;> simp [h]
      · rcases hcode with h | h | h <;> simp [h]
    · intro e' s' i hcall hafter' hi hholds
      have hother : e'.call ≠ .getNonce nonce := by simp [hcall]
      have hread' := hreread.snoc (not_conflict (e := e') (by simp [hcall]))
      refine ⟨by rintro _ ⟨⟩, by rintro _ ⟨⟩, by rintro _ ⟨⟩, ?_, ?_, hread'⟩
      · rintro _ ⟨rfl⟩
        exact ⟨hi.trans hroom, hholds, .inl (hquiet'.snoc (congrArg Shared.table hafter'))⟩
      · intro hnot
        exact absurd (hhome'.snoc fun h => absurd h hother) hnot

theorem nameClaimed_of_lookup {roomId : RoomId} {name : Name} {nonce : Hex32} {e : Event store}
    (hc : Consistent e.before)
    (hcall : ∃ ip peer token now expires,
      e.call = .joinRoom roomId ip peer token nonce now expires name)
    (hname : (e.before.table.names.lookup (roomId, nameKey name)).isSome)
    (hnonce : e.before.table.nonces.lookup nonce = none) : NameClaimed roomId name nonce e := by
  obtain ⟨claim, hclaim⟩ := Option.isSome_iff_exists.mp hname
  have howner : e.before.table.nameOwner (roomId, nameKey name) = some (roomId, claim.peerId) := by
    simp [Table.nameOwner, hclaim]
  obtain ⟨p, hp, -⟩ := (hc.names _ _).mp howner
  refine ⟨hcall, claim.peerId, p, howner, hp, ?_⟩
  intro he
  have hown := hc.nonces.entry_of_record hp
  rw [nonceEntry, he] at hown
  simp [Table.nonceOwner, hnonce] at hown

theorem joinReply {roomId : RoomId} {vip : Text} {peer : PeerId} {token nonce : Hex32}
    {now expires : ℤ} {name : Name} {before : Shared} {r : Reading}
    {reply : Except OpError JoinResult}
    (h : (before.table.joinRoom r.conflicts roomId vip peer token nonce now expires name).1 = reply)
    (hne : reply ≠ .ok .nonceExists) :
    ¬NonceConflict roomId nonce
      ⟨before, r, .joinRoom roomId vip peer token nonce now expires name⟩ := by
  rintro ⟨ip, peer', token', now', expires', name', hcall, hreply⟩
  cases hcall
  exact hne (h.symm.trans hreply)

theorem joinPool_safe {roomId : RoomId} {room : RoomItem} {nonce : Hex32} {name : Name} {now : ℤ}
    {token : Hex32} {peerId : PeerId} {redraw : List Text → Handler Issued} (hid : peerId.val ≠ 0)
    (hredraw : ∀ pool past s, Walking roomId nonce past pool →
      rooms.Safe (JoinAnswer roomId nonce name) (redraw pool) past s)
    (pool : List Text) {past : Past} {s : Shared} (h : Walking roomId nonce past pool) :
    rooms.Safe (JoinAnswer roomId nonce name)
      (Service.joinPool roomId room nonce name now token peerId redraw pool) past s := by
  induction pool generalizing past s with
  | nil =>
    obtain ⟨lower, hsplit, hall⟩ := h.claimed
    rw [List.append_nil] at hsplit
    refine ⟨fun _ _ => h.quiet, ?_, ?_, by rintro _ ⟨⟩, fun hnot => absurd h.home hnot, h.reread⟩
    · rintro _ - -
      rw [hsplit]
      exact hall
    · rintro _ ⟨rfl⟩ hcode
      simp [roomFull, opError] at hcode
  | cons vip rest ih =>
    obtain ⟨lower, hsplit, hall⟩ := h.claimed
    have hvip : vip ∈ PARTICIPANT_POOL := by simp [hsplit]
    refine safe_joinRoom ⟨hvip, hid⟩ ?_ ?_ ?_
    · intro before r after hgrow hinv hgrow' hinv' hreply hat
      refine ⟨by
        rintro _ ⟨⟩, by
          rintro _ ⟨⟩, by rintro _ ⟨⟩, ?_, ?_, h.reread.snoc (joinReply hreply (by simp))⟩
      · rintro i ⟨rfl⟩
        exact ⟨rfl, ⟨expiresInS_nonneg _ _, _, hat, rfl, rfl, rfl⟩,
          .inr ⟨past, _, lower, rest, rfl, h.quiet, ⟨_, _, _, rfl⟩, hsplit, hall⟩⟩
      · intro hnot
        refine absurd (h.home.snoc ?_) hnot
        rintro ⟨⟩
    · intro before r result hgrow hinv hne hreply hname hclaim hnonce hafter
      by_cases hconflict : result = .nonceExists
      · subst hconflict
        have hquiet := h.quiet.snoc (congrArg Shared.table hafter)
        have hhome := h.home.snoc
          (e := ⟨before, r, .joinRoom roomId vip peerId token nonce now room.expiresAtMs name⟩)
          (by simp)
        refine reread_safe ?_ ?_
        · intro e s' err hcall hafter' hnone hcode
          refine JoinAnswer.error (hquiet.snoc (congrArg Shared.table hafter')) (by simp [hcode])
            (by simp [hcode]) (.inl (hhome.snoc ?_)) (h.reread.conflict hcall)
          intro _ found hfound
          rw [hnone] at hfound
          cases hfound
        · intro e s' found hcall hafter' hfound hissued
          exact replayJoin_safe hquiet hhome (h.reread.conflict hcall) hafter' hfound hissued
      have hwalk := h.snoc hafter (by simp) (joinReply hreply (by simpa using hconflict))
      cases result with
      | joined => exact absurd rfl hne
      | nonceExists => exact absurd rfl hconflict
      | roomGone =>
        refine safe_read (readOnly_getRoom roomId) ?_
        intro before' r' hgrow' hinv'
        have hwalk' :=
          hwalk.snoc ((readOnly_getRoom roomId).after before' r') (by simp) (not_conflict (by simp))
        cases before'.table.rooms.lookup roomId with
        | none =>
          exact JoinAnswer.error hwalk'.quiet (by decide) (by decide)
            (.inl hwalk'.home) hwalk'.reread
        | some room =>
          exact JoinAnswer.error hwalk'.quiet (by decide) (by decide)
            (.inl hwalk'.home) hwalk'.reread
      | nameTaken =>
        refine ⟨fun _ _ => hwalk.quiet, ?_, ?_, by
          rintro _ ⟨⟩, fun hnot => absurd hwalk.home hnot, hwalk.reread⟩
        · rintro _ ⟨rfl⟩ hcode
          simp [nameTaken, opError] at hcode
        · intro _ _ _
          exact ⟨_, List.mem_append_right past (List.mem_singleton_self _),
            nameClaimed_of_lookup hinv ⟨_, _, _, _, _, rfl⟩ (hname rfl) (hnonce (by simp))⟩
      | vipTaken =>
        refine ih ⟨hwalk.quiet, hwalk.home, hwalk.reread, lower ++ [vip], by simp [hsplit], ?_⟩
        intro ip hip
        rcases List.mem_append.mp hip with hip | hip
        · obtain ⟨e, he, hc⟩ := hall ip hip
          exact ⟨e, List.mem_append_left _ he, hc⟩
        · obtain rfl := List.mem_singleton.mp hip
          exact ⟨_, List.mem_append_right past (List.mem_singleton_self _),
            ⟨_, _, _, _, _, _, rfl⟩, hclaim rfl⟩
      | peerIdTaken => exact hredraw _ _ _ hwalk
    · intro before r e hcode hreply hafter
      have hwalk := h.snoc hafter (by simp) (joinReply hreply (by simp))
      exact JoinAnswer.error hwalk.quiet (by simp [hcode]) (by simp [hcode])
        (.inl hwalk.home) hwalk.reread

theorem joinAttempts_safe {roomId : RoomId} {room : RoomItem} {nonce : Hex32}
    {name : Name} {now : ℤ} {token : Hex32} (left : ℕ) {peerId : PeerId} (hid : peerId.val ≠ 0)
    {pool : List Text} {past : Past} {s : Shared} (h : Walking roomId nonce past pool) :
    rooms.Safe (JoinAnswer roomId nonce name)
      (Service.joinAttempts roomId room nonce name now token left peerId pool) past s := by
  induction left generalizing peerId pool past s with
  | zero =>
    refine joinPool_safe hid ?_ pool h
    intro pool' past' s' h'
    exact JoinAnswer.error h'.quiet (by decide) (by decide) (.inl h'.home) h'.reread
  | succ left ih =>
    refine joinPool_safe hid ?_ pool h
    intro pool' past' s' h'
    refine safe_read readOnly_newPeerId ?_
    intro before r hgrow hinv
    exact ih r.peerId.2
      (h'.snoc (readOnly_newPeerId.after before r) (by simp) (not_conflict (by simp)))

/-! ## The handlers -/

/-- The checked fields of a `create_room` body. -/
def CreateBody (body : List (Text × Json)) (nonce : Hex32) (name : Name) : Prop :=
  checkClientNonce (field body "client_nonce".toList) = .ok nonce ∧
    checkName (field body "name".toList) = .ok name

/-- The checked fields of a `join_room` body. -/
def JoinBody (body : List (Text × Json)) (roomId : RoomId) (nonce : Hex32) (name : Name) : Prop :=
  CreateBody body nonce name ∧ normalizeRoomId (field body "room_id".toList) = .ok roomId

/-- The answer of `create_room` to any body. -/
def CreateOutcome (body : List (Text × Json)) (past : Past) (s : Shared)
    (result : Except OpError Issued) :
    Prop :=
  (∃ nonce name, CreateBody body nonce name ∧ CreateAnswer nonce past s result) ∨
    (past = [] ∧ ∃ err, result = .error err ∧ err.code = .badRequest)

/-- The answer of `join_room` to any body. -/
def JoinOutcome (body : List (Text × Json)) (past : Past) (s : Shared)
    (result : Except OpError Issued) :
    Prop :=
  (∃ roomId nonce name, JoinBody body roomId nonce name ∧
    JoinAnswer roomId nonce name past s result) ∨
    (past = [] ∧ ∃ err, result = .error err ∧ err.code = .badRequest)

theorem lowerHex32_error {value : Option Json} {message : String}
    {short : message.length ≤ 64} {e : OpError} (h : lowerHex32 value message short = .error e) :
    e.code = .badRequest := by
  unfold lowerHex32 at h
  repeat' split at h
  all_goals cases h
  all_goals rfl

theorem checkName_error {value : Option Json} {e : OpError} (h : checkName value = .error e) :
    e.code = .badRequest := by
  unfold checkName at h
  repeat' split at h
  all_goals cases h
  all_goals rfl

theorem normalizeRoomId_error {value : Option Json} {e : OpError}
    (h : normalizeRoomId value = .error e) :
    e.code = .badRequest := by
  unfold normalizeRoomId at h
  dsimp only at h
  repeat' split at h
  all_goals cases h
  all_goals rfl

theorem createRoom_safe (body : List (Text × Json)) (s : Shared) :
    rooms.Safe (CreateOutcome body) (Service.createRoom body) [] s := by
  refine safe_ofExcept (fun e he => .inr ⟨rfl, e, rfl, lowerHex32_error he⟩) fun nonce hnonce => ?_
  refine safe_ofExcept (fun e he => .inr ⟨rfl, e, rfl, checkName_error he⟩) fun name hname => ?_
  have lift : ∀ {p : Handler Issued} {past : Past} {s : Shared},
    rooms.Safe (CreateAnswer nonce) p past s →
      Consistent s → rooms.Safe (CreateOutcome body) p past s := fun hsafe hc =>
    hsafe.weaken hc fun _ _ _ _ _ h => .inl ⟨nonce, name, ⟨hnonce, hname⟩, h⟩
  refine safe_nowMs fun b₁ r₁ _ _ => ?_
  have hquiet₁ : Quiet [⟨b₁, r₁, .nowMs⟩] := by
    intro e he
    obtain rfl := List.mem_singleton.mp he
    rfl
  refine safe_read (readOnly_getNonce nonce) fun b₂ r₂ _ hc₂ => ?_
  have hquiet₂ := hquiet₁.snoc (congrArg Shared.table ((readOnly_getNonce nonce).after b₂ r₂))
  cases hfound : b₂.table.nonces.lookup nonce with
  | some found =>
    refine lift (replay_safe (issuedTo_of_lookup hc₂ hfound) ?_ ?_) hc₂
    · intro e s' err _ hafter hcode
      exact CreateAnswer.error (hquiet₂.snoc (congrArg Shared.table hafter)) hcode
    · intro e s' i _ _ _ hholds
      exact ⟨by rintro _ ⟨⟩, by rintro _ ⟨rfl⟩; exact hholds⟩
  | none =>
    refine safe_read readOnly_newPeerId fun b₃ r₃ _ _ => ?_
    have hquiet₃ := hquiet₂.snoc (congrArg Shared.table (readOnly_newPeerId.after b₃ r₃))
    refine safe_read readOnly_newPeerToken fun b₄ r₄ _ hc₄ => ?_
    have hquiet₄ := hquiet₃.snoc (congrArg Shared.table (readOnly_newPeerToken.after b₄ r₄))
    exact lift (createAttempts_safe r₃.peerId.2 _ hquiet₄) hc₄

theorem joinRoom_safe (body : List (Text × Json)) (s : Shared) :
    rooms.Safe (JoinOutcome body) (Service.joinRoom body) [] s := by
  refine safe_ofExcept (fun e he => .inr ⟨rfl, e, rfl, lowerHex32_error he⟩) fun nonce hnonce => ?_
  refine safe_ofExcept (fun e he => .inr ⟨rfl, e, rfl, checkName_error he⟩) fun name hname => ?_
  refine safe_ofExcept (fun e he => .inr ⟨rfl, e, rfl, normalizeRoomId_error he⟩)
    fun roomId hroom => ?_
  have lift : ∀ {p : Handler Issued} {past : Past} {s : Shared},
      rooms.Safe (JoinAnswer roomId nonce name) p past s → Consistent s →
      rooms.Safe (JoinOutcome body) p past s := fun hsafe hc =>
    hsafe.weaken hc fun _ _ _ _ _ h => .inl ⟨roomId, nonce, name, ⟨⟨hnonce, hname⟩, hroom⟩, h⟩
  refine safe_nowMs fun b₁ r₁ _ _ => ?_
  have hquiet₁ : Quiet [⟨b₁, r₁, .nowMs⟩] := by
    intro e he
    obtain rfl := List.mem_singleton.mp he
    rfl
  have hhome₁ : Local roomId nonce [⟨b₁, r₁, .nowMs⟩] := by
    intro e he hcall
    obtain rfl := List.mem_singleton.mp he
    cases hcall
  have hreread₁ : Reread roomId nonce [⟨b₁, r₁, .nowMs⟩] := by
    refine ⟨List.isChain_singleton _, ?_⟩
    intro e he
    obtain rfl : (⟨b₁, r₁, .nowMs⟩ : Event store) = e := by simpa using he
    exact not_conflict (by simp)
  refine safe_read (readOnly_getNonce nonce) fun b₂ r₂ _ hc₂ => ?_
  have hafter₂ := (readOnly_getNonce nonce).after b₂ r₂
  have hreread₂ := hreread₁.snoc (e := ⟨b₂, r₂, .getNonce nonce⟩) (not_conflict (by simp))
  cases hfound : b₂.table.nonces.lookup nonce with
  | some found =>
    exact lift
      (replayJoin_safe hquiet₁ hhome₁ hreread₂ hafter₂ hfound (issuedTo_of_lookup hc₂ hfound)) hc₂
  | none =>
    have hwalk₂ : Walking roomId nonce ([⟨b₁, r₁, .nowMs⟩] ++ [⟨b₂, r₂, .getNonce nonce⟩])
      PARTICIPANT_POOL := by
      refine ⟨hquiet₁.snoc (congrArg Shared.table hafter₂), hhome₁.snoc ?_, hreread₂,
        [], rfl, by simp⟩
      intro _ found hsome
      rw [hfound] at hsome
      cases hsome
    refine safe_read (readOnly_getRoom roomId) fun b₃ r₃ _ hc₃ => ?_
    have hwalk₃ :=
      hwalk₂.snoc ((readOnly_getRoom roomId).after b₃ r₃) (by simp) (not_conflict (by simp))
    refine safe_ofExcept ?_ fun room _ => ?_
    · intro err herr
      refine .inl ⟨roomId, nonce, name, ⟨⟨hnonce, hname⟩, hroom⟩, ?_⟩
      rcases checkRoom_cases (b₃.table.rooms.lookup roomId) r₁.wallMs with
        ⟨room, -, -, h⟩ | ⟨room, -, -, h⟩ | ⟨-, h⟩
      · rw [h] at herr
        cases herr
      · obtain rfl : roomExpired = err := by simpa [h] using herr
        exact JoinAnswer.error hwalk₃.quiet (by decide) (by decide) (.inl hwalk₃.home) hwalk₃.reread
      · obtain rfl : roomNotFound = err := by simpa [h] using herr
        exact JoinAnswer.error hwalk₃.quiet (by decide) (by decide) (.inl hwalk₃.home) hwalk₃.reread
    · refine safe_read readOnly_newPeerId fun b₄ r₄ _ _ => ?_
      have hwalk₄ := hwalk₃.snoc (readOnly_newPeerId.after b₄ r₄) (by simp) (not_conflict (by simp))
      refine safe_read readOnly_newPeerToken fun b₅ r₅ _ hc₅ => ?_
      have hwalk₅ :=
        hwalk₄.snoc (readOnly_newPeerToken.after b₅ r₅) (by simp) (not_conflict (by simp))
      exact lift (joinAttempts_safe _ r₄.peerId.2 hwalk₅) hc₅

end Sangtachi.Control
