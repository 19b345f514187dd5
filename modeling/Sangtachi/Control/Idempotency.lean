import Sangtachi.Control.RoomConsistency

/-! # Retries of create and join

A client nonce stands for one peer. However requests that carry it interleave, their success
answers name the same peer for as long as it is in the room, and an error leaves nothing
behind. -/
namespace Sangtachi.Control

open AtomicPrograms UniqueIndex

/-- A request for a place and its checked fields; the room is `none` for a new one. -/
inductive Asks (req : Service.Request) : Option RoomId → Hex32 → Name → Prop where
  | create {body : List (Text × Json)} {nonce : Hex32} {name : Name}
      (op : req.op = "create_room".toList)
      (obj : req.body = .obj body) (fields : CreateBody body nonce name) : Asks req none nonce name
  | join {body : List (Text × Json)} {roomId : RoomId} {nonce : Hex32} {name : Name}
      (op : req.op = "join_room".toList) (obj : req.body = .obj body)
      (fields : JoinBody body roomId nonce name) : Asks req (some roomId) nonce name

def Answered (t : ServerTask) (result : Except OpError Fields) : Prop :=
  t.rest.outcome = some result

def ForPlace (req : Service.Request) : Prop :=
  req.op = "create_room".toList ∨ req.op = "join_room".toList

theorem error_of_map {result : Except OpError Issued} {e : OpError}
    (h : result.map Fields.issued = .error e) : result = .error e := by
  cases result with
  | ok i => cases h
  | error e' =>
    obtain rfl : e' = e := Except.error.inj h
    rfl

theorem quiet_nil : Quiet [] := fun _ he => absurd he List.not_mem_nil

theorem reread_nil (roomId : RoomId) (nonce : Hex32) : Reread roomId nonce [] :=
  ⟨List.isChain_nil, by simp⟩

theorem JoinOutcome.answer {body : List (Text × Json)} {past : Past} {s : Shared}
    {result : Except OpError Issued} {roomId : RoomId} {nonce : Hex32} {name : Name}
    (h : JoinOutcome body past s result) (hbody : JoinBody body roomId nonce name) :
    JoinAnswer roomId nonce name past s result := by
  rcases h with ⟨roomId', nonce', name', hbody', hanswer⟩ | ⟨rfl, err, rfl, hcode⟩
  · obtain ⟨⟨hn, hname⟩, hr⟩ := hbody
    obtain ⟨⟨hn', hname'⟩, hr'⟩ := hbody'
    obtain rfl := Except.ok.inj (hn.symm.trans hn')
    obtain rfl := Except.ok.inj (hname.symm.trans hname')
    obtain rfl := Except.ok.inj (hr.symm.trans hr')
    exact hanswer
  · exact JoinAnswer.error quiet_nil (by simp [hcode]) (by simp [hcode]) (.inr hcode)
      (reread_nil roomId nonce)

theorem CreateOutcome.answer {body : List (Text × Json)} {past : Past} {s : Shared}
    {result : Except OpError Issued} {nonce : Hex32} {name : Name}
    (h : CreateOutcome body past s result) (hbody : CreateBody body nonce name) :
    CreateAnswer nonce past s result := by
  rcases h with ⟨nonce', name', hbody', hanswer⟩ | ⟨rfl, err, rfl, hcode⟩
  · obtain rfl := Except.ok.inj (hbody.1.symm.trans hbody'.1)
    exact hanswer
  · refine ⟨?_, by rintro _ ⟨⟩⟩
    rintro _ ⟨rfl⟩
    exact ⟨quiet_nil, by simp [hcode], by simp [hcode]⟩

theorem full_or_taken {req : Service.Request} {past : Past} {s : Shared} {err : OpError}
    (h : Answer req past s (.error err)) (hop : ForPlace req)
    (hcode : err.code = .roomFull ∨ err.code = .nameTaken) :
    ∃ roomId nonce name, Asks req (some roomId) nonce name ∧
      JoinAnswer roomId nonce name past s (.error err) := by
  have hbody : ∃ body, req.body = .obj body := by
    by_contra hnone
    obtain ⟨-, e, he, hmalformed⟩ := h.malformed fun body hbody => hnone ⟨body, hbody⟩
    obtain rfl := Except.error.inj he
    rcases hcode with hcode | hcode <;> simp [hcode] at hmalformed
  obtain ⟨body, hbody⟩ := hbody
  rcases hop with hop | hop
  · obtain ⟨issued, he, houtcome⟩ := h.create body hop hbody
    obtain rfl := error_of_map he.symm
    rcases houtcome with ⟨nonce, name, -, hanswer⟩ | ⟨-, err', herr, hcode'⟩
    · obtain ⟨-, hfull, htaken⟩ := hanswer.failed err rfl
      exact absurd hcode (not_or.mpr ⟨hfull, htaken⟩)
    · obtain rfl := Except.error.inj herr
      simp [hcode'] at hcode
  · obtain ⟨issued, he, houtcome⟩ := h.join body hop hbody
    obtain rfl := error_of_map he.symm
    rcases houtcome with ⟨roomId, nonce, name, hjoin, hanswer⟩ | ⟨-, err', herr, hcode'⟩
    · exact ⟨roomId, nonce, name, .join hop hbody hjoin, hanswer⟩
    · obtain rfl := Except.error.inj herr
      simp [hcode'] at hcode

theorem error_quiet {req : Service.Request} {past : Past} {s : Shared} {err : OpError}
    (h : Answer req past s (.error err)) (hop : ForPlace req) : Quiet past := by
  by_cases hbody : ∃ body, req.body = .obj body
  · obtain ⟨body, hbody⟩ := hbody
    rcases hop with hop | hop
    · obtain ⟨issued, he, houtcome⟩ := h.create body hop hbody
      obtain rfl := error_of_map he.symm
      rcases houtcome with ⟨nonce, name, -, hanswer⟩ | ⟨rfl, -⟩
      · exact (hanswer.failed err rfl).1
      · exact quiet_nil
    · obtain ⟨issued, he, houtcome⟩ := h.join body hop hbody
      obtain rfl := error_of_map he.symm
      rcases houtcome with ⟨roomId, nonce, name, -, hanswer⟩ | ⟨rfl, -⟩
      · exact hanswer.failed err rfl
      · exact quiet_nil
  · obtain ⟨rfl, -⟩ := h.malformed fun body h => hbody ⟨body, h⟩
    exact quiet_nil

section

variable {w : ServerWorld} {t t' : ServerTask} {target target' : Option RoomId} {nonce : Hex32}
  {name name' : Name} {result : Except OpError Fields} {i i' : Issued}

theorem join_answer (h : Reachable NeverReused w) (ht : t ∈ w.tasks) {roomId : RoomId}
    (hasks : Asks t.request (some roomId) nonce name) (hr : Answered t result) :
    ∃ issued, result = issued.map Fields.issued ∧
      JoinAnswer roomId nonce name t.past t.seen issued := by
  have hanswer := ((reachable_sound h).tasks t ht).outcome hr
  cases hasks with
  | join op obj fields =>
    obtain ⟨issued, he, houtcome⟩ := hanswer.join _ op obj
    exact ⟨issued, he, houtcome.answer fields⟩

theorem place_held (h : Reachable NeverReused w) (ht : t ∈ w.tasks)
    (hasks : Asks t.request target nonce name) (hr : Answered t (.ok (.issued i))) :
    Holds t.seen nonce i := by
  have hok : ∀ {issued : Except OpError Issued},
    Except.ok (Fields.issued i) = issued.map Fields.issued →
      issued = .ok i := by
    intro issued he
    cases issued with
    | error e => cases he
    | ok j =>
      obtain rfl : i = j := by simpa [Except.map] using he
      rfl
  cases hasks with
  | create op obj fields =>
    obtain ⟨issued, he, houtcome⟩ := (((reachable_sound h).tasks t ht).outcome hr).create _ op obj
    exact (houtcome.answer fields).success i (hok he)
  | join op obj fields =>
    obtain ⟨issued, he, houtcome⟩ := (((reachable_sound h).tasks t ht).outcome hr).join _ op obj
    exact ((houtcome.answer fields).success i (hok he)).2.1

/-- What an answer says about its peer stays true for as long as the peer is in the room. -/
theorem Holds.later {s s' : Shared} (h : Holds s nonce i) (hc : Consistent s) (hc' : Consistent s')
    {now : Shared} (hg : Grows s now) (hg' : Grows s' now) (hnow : Consistent now) {p : PeerItem}
    (hp : s'.table.peerAt (i.roomId, i.peerId) = some p) :
    p.peerToken = i.peerToken ∧ p.virtualIp = i.virtualIp ∧ p.clientNonce = nonce := by
  obtain ⟨-, q, hq, htoken, hip, hn⟩ := h
  obtain ⟨q₁, hq₁, hsame₁⟩ := hc.recorded _ q hq
  obtain ⟨p₁, hp₁, hsame₂⟩ := hc'.recorded _ p hp
  have hid : q₁.peerId = p₁.peerId := by
    rw [← hsame₁.peerId, ← hsame₂.peerId, hc.keyed _ q hq, hc'.keyed _ p hp]
  obtain rfl := hnow.once _ q₁ p₁ (hg.issued _ hq₁) (hg'.issued _ hp₁) hid
  have hsame : SamePeer p q := hsame₂.trans hsame₁.symm
  exact ⟨hsame.peerToken.trans htoken, hsame.virtualIp.trans hip, hsame.clientNonce.trans hn⟩

theorem answers_agree (h : Reachable NeverReused w) (ht : t ∈ w.tasks) (ht' : t' ∈ w.tasks)
    (hasks : Asks t.request target nonce name) (hasks' : Asks t'.request target' nonce name')
    (hr : Answered t (.ok (.issued i))) (hr' : Answered t' (.ok (.issued i')))
    (hthere : (t'.seen.table.peers.lookup (i.roomId, i.peerId)).isSome) :
    i.roomId = i'.roomId ∧ i.peerId = i'.peerId ∧ i.peerToken = i'.peerToken ∧
    i.virtualIp = i'.virtualIp := by
  obtain ⟨p, hp⟩ := Option.isSome_iff_exists.mp hthere
  have hs := (reachable_sound h).tasks t ht
  have hs' := (reachable_sound h).tasks t' ht'
  obtain ⟨htoken, hip, hn⟩ :=
    (place_held h ht hasks hr).later hs.inv hs'.inv hs.seen hs'.seen h.consistent hp
  obtain ⟨-, p', hp', htoken', hip', hn'⟩ := place_held h ht' hasks' hr'
  have hkey := hs'.inv.nonces.injective (k := (i.roomId, i.peerId)) hp hp' (hn.trans hn'.symm)
  rw [hkey] at hp
  obtain rfl := Option.some.inj (hp.symm.trans hp')
  obtain ⟨hroom, hid⟩ := Prod.mk.inj hkey
  exact ⟨hroom, hid, htoken.symm.trans htoken', hip.symm.trans hip'⟩

end

/-- What every reachable state and every answer of it say about nonces. -/
structure Idempotent (w : ServerWorld) : Prop where
  onePeer : ∀ k k' p p', w.state.table.peers.lookup k = some p →
    w.state.table.peers.lookup k' = some p' →
    p.clientNonce = p'.clientNonce → k = k'
  oneRoom : ∀ roomId roomId' room room' host host', w.state.table.rooms.lookup roomId = some room →
    w.state.table.rooms.lookup roomId' = some room' →
    w.state.table.peers.lookup (roomId, room.hostPeerId) = some host →
    w.state.table.peers.lookup (roomId', room'.hostPeerId) = some host' →
    host.clientNonce = host'.clientNonce → roomId = roomId'
  agree : ∀ t ∈ w.tasks, ∀ t' ∈ w.tasks, ∀ target target' nonce name name' i i',
    Asks t.request target nonce name → Asks t'.request target' nonce name' →
    Answered t (.ok (.issued i)) → Answered t' (.ok (.issued i')) →
    (t'.seen.table.peers.lookup (i.roomId, i.peerId)).isSome →
    i.roomId = i'.roomId ∧ i.peerId = i'.peerId ∧ i.peerToken = i'.peerToken ∧
    i.virtualIp = i'.virtualIp
  elsewhere : ∀ t ∈ w.tasks, ∀ roomId nonce name result, Asks t.request (some roomId) nonce name →
    Answered t result → ∀ e ∈ t.past, e.call = .getNonce nonce →
    ∀ found, e.before.table.nonces.lookup nonce = some found → found.roomId ≠ roomId →
    ∃ err, result = .error err ∧ err.code = .badRequest
  conflict : ∀ t ∈ w.tasks, ∀ roomId nonce name result, Asks t.request (some roomId) nonce name →
    Answered t result → ∀ pre e post, t.past = pre ++ e :: post → NonceConflict roomId nonce e →
    ∃ e' post', post = e' :: post' ∧ e'.call = .getNonce nonce
  failed : ∀ t ∈ w.tasks, ForPlace t.request → ∀ err, Answered t (.error err) → Quiet t.past
  full : ∀ t ∈ w.tasks, ForPlace t.request → ∀ err, Answered t (.error err) → err.code = .roomFull →
    ∃ roomId nonce name, Asks t.request (some roomId) nonce name ∧
      ∀ ip ∈ PARTICIPANT_POOL, ∃ e ∈ t.past, Claimed roomId ip e
  taken : ∀ t ∈ w.tasks, ForPlace t.request → ∀ err, Answered t (.error err) →
    err.code = .nameTaken →
    ∃ roomId nonce name, Asks t.request (some roomId) nonce name ∧
      ∃ e ∈ t.past, NameClaimed roomId name nonce e
  lowest : ∀ t ∈ w.tasks, ∀ roomId nonce name i, Asks t.request (some roomId) nonce name →
    Answered t (.ok (.issued i)) → i.roomId = roomId ∧ (Quiet t.past ∨ Walked roomId nonce t.past i)

theorem issuing_is_idempotent {w : ServerWorld} (h : Reachable NeverReused w) : Idempotent w where
  onePeer k k' p p' hp hp' he := h.consistent.nonces.injective hp hp' he
  oneRoom roomId roomId' room room' host host' _ _ hhost hhost' he := by
    have hp : w.state.table.peerAt (roomId, room.hostPeerId) = some host := hhost
    have hp' : w.state.table.peerAt (roomId', room'.hostPeerId) = some host' := hhost'
    have hkey := h.consistent.nonces.injective hp hp' he
    exact (Prod.mk.inj hkey).1
  agree t ht t' ht' target target' nonce name name' i i' := answers_agree h ht ht'
  elsewhere t ht roomId nonce name result hasks hr e he hcall found hfound hne := by
    obtain ⟨issued, rfl, hanswer⟩ := join_answer h ht hasks hr
    obtain ⟨err, rfl, hcode⟩ := hanswer.elsewhere fun hlocal => hne (hlocal e he hcall found hfound)
    exact ⟨err, rfl, hcode⟩
  conflict t ht roomId nonce name result hasks hr pre e post hpast hconflict := by
    obtain ⟨issued, rfl, hanswer⟩ := join_answer h ht hasks hr
    have hreread := hanswer.reread
    rw [hpast] at hreread
    cases post with
    | nil => exact absurd hconflict (hreread.last e (by simp))
    | cons e' post' =>
      have hchain := (List.isChain_append.mp hreread.next).2.1
      exact ⟨e', post', rfl, (List.isChain_cons_cons.mp hchain).1 hconflict⟩
  failed t ht hop err hr := error_quiet (((reachable_sound h).tasks t ht).outcome hr) hop
  full t ht hop err hr hcode := by
    obtain ⟨roomId, nonce, name, hasks, hanswer⟩ :=
      full_or_taken (((reachable_sound h).tasks t ht).outcome hr) hop (.inl hcode)
    exact ⟨roomId, nonce, name, hasks, hanswer.full err rfl hcode⟩
  taken t ht hop err hr hcode := by
    obtain ⟨roomId, nonce, name, hasks, hanswer⟩ :=
      full_or_taken (((reachable_sound h).tasks t ht).outcome hr) hop (.inr hcode)
    exact ⟨roomId, nonce, name, hasks, hanswer.taken err rfl hcode⟩
  lowest t ht roomId nonce name i hasks hr := by
    obtain ⟨issued, he, hanswer⟩ := join_answer h ht hasks hr
    cases issued with
    | error e => cases he
    | ok j =>
      obtain rfl : i = j := by simpa [Except.map] using he
      obtain ⟨hroom, -, hwalk⟩ := hanswer.success i rfl
      exact ⟨hroom, hwalk⟩

/-- The run of the room with two players, as an instance. -/
theorem sample_idempotent : Idempotent sampleMet := issuing_is_idempotent sampleMet_reachable

/-! ## A peer id drawn again -/

/-- A report has read the room with the second player when another one releases that player. Then a
third player draws the same peer id and the second one joins again, and only now the first report
releases the id it has read, with the nonce it has read. The second player joins once more. -/
def redrawSchedule : List (Action store Service.Request) :=
  sampleMeeting ++ sampleCalls (sampleReport [.int 2] []) 5 2 5000 0 ++
    sampleCalls (sampleReport [.int 2] []) 6 11 6000 0 ++
      sampleCalls (sampleJoinAs 'c' "Cid") 7 6 7000 1 ++
    sampleCalls sampleJoin 8 7 8000 2 ++ [.advance 5 (sampleReading 9000 0)] ++
    sampleCalls (sampleJoinAs 'b' "Rob") 9 6 10000 3

def redrawWorld : ServerWorld :=
  (play AnyReading Service.dispatch redrawSchedule (initialWorld 0)).get (by decide +kernel)

theorem redrawWorld_twice :
    (redrawWorld.state.table.peers.lookup (sampleRoom, 3)).isSome ∧
    (redrawWorld.state.table.peers.lookup (sampleRoom, 3)).map PeerItem.clientNonce =
      (redrawWorld.state.table.peers.lookup (sampleRoom, 4)).map PeerItem.clientNonce := by
  decide +kernel

/-- Where a peer id may be drawn again, one nonce can stand for two peers. -/
theorem redrawn_id_splits_nonce : ¬∀ w, Reachable AnyReading w → Idempotent w := by
  intro h
  have hreach : Reachable AnyReading redrawWorld := ⟨0, steps_of_play (Option.some_get _).symm⟩
  obtain ⟨hthird, hsame⟩ := redrawWorld_twice
  obtain ⟨p, hp⟩ := Option.isSome_iff_exists.mp hthird
  rw [hp, Option.map_some, eq_comm, Option.map_eq_some_iff] at hsame
  obtain ⟨p', hp', hnonce⟩ := hsame
  have hkeys := (h redrawWorld hreach).onePeer _ _ p' p hp' hp hnonce
  exact absurd (Prod.mk.inj hkeys).2 (by decide)

end Sangtachi.Control
