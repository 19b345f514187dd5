import Sangtachi.Control.Idempotency

/-! # Callers without a token

A request that shows no valid token reads the clock and the room and is refused. The refusal
depends on the time and the `ROOM` item only, so it tells nothing about the peers. -/
namespace Sangtachi.Control

open AtomicPrograms

/-- A task of some run of the server, on any store and whatever the calls read. -/
def Served (t : ServerTask) : Prop :=
  ∃ s w, Steps (fun _ _ _ => True) Service.dispatch ⟨s, []⟩ w ∧ t ∈ w.tasks

/-- A well-formed request of one of the operations that name their caller. -/
inductive Presents (req : Service.Request) (roomId : RoomId) (peerId : PeerId)
    (token : Hex32) : Prop where
  | register (op : req.op = "register_candidate".toList) (body : List (Text × Json))
      (obj : req.body = .obj body)
      (id : uint32 body "peer_id" = .ok peerId)
      (secret : checkPeerToken (field body "peer_token".toList) = .ok token)
      (room : normalizeRoomId (field body "room_id".toList) = .ok roomId)
      (candidates : List Candidate × ℕ)
      (sane : sanitizeCandidates (field body "candidates".toList) = .ok candidates)
  | poll (op : req.op = "get_peers".toList) (body : List (Text × Json)) (obj : req.body = .obj body)
      (id : uint32 body "peer_id" = .ok peerId)
      (secret : checkPeerToken (field body "peer_token".toList) = .ok token)
      (room : normalizeRoomId (field body "room_id".toList) = .ok roomId)
  | report (op : req.op = "host_report".toList) (body : List (Text × Json))
      (obj : req.body = .obj body)
      (id : uint32 body "peer_id" = .ok peerId)
      (secret : checkPeerToken (field body "peer_token".toList) = .ok token)
      (room : normalizeRoomId (field body "room_id".toList) = .ok roomId)
      (departed confirms : List PeerId)
      (gone : peerIdList body "departed" = .ok departed)
      (found : peerIdList body "confirm" = .ok confirms)

/-- Every `PEER#` item of the room is stored under the id that it holds. -/
def Readable (t : Table) (roomId : RoomId) : Prop :=
  ∀ id p, t.peerAt (roomId, id) = some p → p.peerId = id

def OpenAt (t : Table) (roomId : RoomId) (now : ℤ) : Prop :=
  ∃ room, t.rooms.lookup roomId = some room ∧ now < room.expiresAtMs

def Known (t : Table) (roomId : RoomId) (peerId : PeerId) (token : Hex32) : Prop :=
  ∃ p, t.peerAt (roomId, peerId) = some p ∧ p.peerToken = token

def Stranger (t : Table) (req : Service.Request) (roomId : RoomId) (peerId : PeerId)
    (token : Hex32) : Prop :=
  ¬Known t roomId peerId token ∨
    req.op = "host_report".toList ∧ ∀ room, t.rooms.lookup roomId = some room →
    peerId ≠ room.hostPeerId

/-- The first two calls of a request: the time it read, and the table that its query found. -/
def Looked (t : ServerTask) (roomId : RoomId) (now : ℤ) (found : Table) : Prop :=
  ∃ clock query rest, t.past = clock :: query :: rest ∧ clock.call = .nowMs ∧
    clock.reading.wallMs = now ∧
    query.call = .queryRoom roomId ∧ query.before.table = found

def refusal (room : Option RoomItem) (now : ℤ) : OpError :=
  match checkRoom room now with
  | .ok _ => unauthorized
  | .error e => e

section

variable {t : Table} {req : Service.Request} {roomId : RoomId} {peerId : PeerId}
  {token : Hex32} {now : ℤ}

def checkCaller (req : Service.Request) (view : RoomView) (room : RoomItem) (peerId : PeerId)
    (token : Hex32) :
    Except OpError PeerItem :=
  if req.op = "host_report".toList ∧ peerId ≠ room.hostPeerId then .error unauthorized
  else Service.authenticate view peerId token

/-- The checks on what the query showed, and the rest of the operation. -/
def admission (req : Service.Request) (peerId : PeerId) (token : Hex32)
    (next : ℤ → RoomView → RoomItem → PeerItem → Handler Fields) (now : ℤ) (view : RoomView) :
    Handler Fields := do
  let room ← .ofExcept (checkRoom view.room now)
  let caller ← .ofExcept (checkCaller req view room peerId token)
  next now view room caller

/-- The shape that the three operations share. -/
def checked (req : Service.Request) (roomId : RoomId) (peerId : PeerId) (token : Hex32)
    (next : ℤ → RoomView → RoomItem → PeerItem → Handler Fields) : Handler Fields := do
  let now ← Service.nowMs
  let view ← Service.queryRoom roomId
  admission req peerId token next now view

theorem checkCaller_other {view : RoomView} {room : RoomItem} (h : req.op ≠ "host_report".toList) :
    checkCaller req view room peerId token = Service.authenticate view peerId token := by
  rw [checkCaller, if_neg]
  exact fun hreport => h hreport.1

theorem checkCaller_report {view : RoomView} {room : RoomItem} {f : PeerItem → Handler Fields}
    (h : req.op = "host_report".toList) :
    (if peerId ≠ room.hostPeerId then throw unauthorized
      else Prog.ofExcept (Service.authenticate view peerId token) >>= f) =
    Prog.ofExcept (checkCaller req view room peerId token) >>= f := by
  by_cases hhost : peerId ≠ room.hostPeerId
  · rw [if_pos hhost, checkCaller, if_pos ⟨h, hhost⟩]
    rfl
  · rw [if_neg hhost, checkCaller, if_neg]
    exact fun hother => hhost hother.2

/-- What `register_candidate` does once it has admitted its caller. -/
def writeCandidates (roomId : RoomId) (peerId : PeerId) (token : Hex32) (stored : List Candidate)
    (rejected : ℕ) :
    Handler Fields := do
  let registered ← (.call (.registerCandidates roomId peerId token stored) .done : Handler Bool)
  if registered then return .registered stored.length rejected
  else throw unauthorized

theorem Presents.program (h : Presents req roomId peerId token) :
    ∃ next, Service.dispatch req = checked req roomId peerId token next ∧
      (req.op = "register_candidate".toList → ∃ stored rejected, ∀ now view room caller,
        next now view room caller = writeCandidates roomId peerId token stored rejected) := by
  unfold checked admission
  cases h with
  | register op body obj id secret room candidates sane =>
    have hother : req.op ≠ "host_report".toList := by
      rw [op]
      decide
    simp only [checkCaller_other hother]
    unfold Service.dispatch
    rw [if_neg (by rw [op]; decide), if_neg (by rw [op]; decide), if_pos op, obj]
    dsimp only
    unfold Service.registerCandidate
    rw [id, secret, sane, room]
    exact ⟨_, rfl, fun _ => ⟨candidates.1, candidates.2, fun _ _ _ _ => rfl⟩⟩
  | poll op body obj id secret room =>
    have hother : req.op ≠ "host_report".toList := by
      rw [op]
      decide
    simp only [checkCaller_other hother]
    unfold Service.dispatch
    rw [if_neg (by rw [op]; decide), if_neg (by rw [op]; decide), if_neg (by rw [op]; decide),
      if_pos op, obj]
    dsimp only
    unfold Service.getPeers
    rw [id, secret, room]
    exact ⟨_, rfl, fun hregister => absurd (op.symm.trans hregister) (by decide)⟩
  | report op body obj id secret room departed confirms gone found =>
    unfold Service.dispatch
    rw [if_neg (by rw [op]; decide), if_neg (by rw [op]; decide), if_neg (by rw [op]; decide),
      if_neg (by rw [op]; decide), if_pos op, obj]
    dsimp only
    unfold Service.hostReport
    rw [id, secret, gone, found, room]
    simp only [checkCaller_report op]
    exact ⟨_, rfl, fun hregister => absurd (op.symm.trans hregister) (by decide)⟩

/-! ## Strangers -/

theorem mem_view_of_peer {p : PeerItem} (hread : Readable t roomId)
    (hp : (queryRoom t roomId).peer peerId = some p) : t.peerAt (roomId, peerId) = some p := by
  obtain ⟨id, hid⟩ := mem_view_peers.mp (List.mem_of_find?_eq_some hp)
  have hkey : p.peerId = peerId := by simpa using List.find?_some hp
  rw [← hkey, hread id p hid]
  exact hid

theorem peer_of_view_none (hread : Readable t roomId)
    (hnone : (queryRoom t roomId).peer peerId = none) :
    t.peerAt (roomId, peerId) = none := by
  cases hp : t.peerAt (roomId, peerId) with
  | none => rfl
  | some p =>
    have hmem : p ∈ (queryRoom t roomId).peers := mem_view_peers.mpr ⟨peerId, hp⟩
    exact absurd (hread peerId p hp) (by simpa using List.find?_eq_none.mp hnone p hmem)

theorem authenticate_unknown (hread : Readable t roomId) (hunknown : ¬Known t roomId peerId token) :
    Service.authenticate (queryRoom t roomId) peerId token = .error unauthorized := by
  unfold Service.authenticate Service.knownPeer
  cases hview : (queryRoom t roomId).peer peerId with
  | none =>
    have hnone := peer_of_view_none hread hview
    have hsk : ¬SortKey.peer peerId ∈ (queryRoom t roomId).sks := by
      rw [mem_view_sks, hnone]
      exact Bool.false_ne_true
    dsimp only
    rw [if_neg hsk]
    rfl
  | some p =>
    have hp := mem_view_of_peer hread hview
    have htoken : p.peerToken ≠ token := fun heq => hunknown ⟨p, hp, heq⟩
    change (if p.peerToken = token then _ else _) = _
    rw [if_neg htoken]

theorem checkCaller_stranger {room : RoomItem} (hread : Readable t roomId)
    (hroom : t.rooms.lookup roomId = some room) (h : Stranger t req roomId peerId token) :
    checkCaller req (queryRoom t roomId) room peerId token = .error unauthorized := by
  unfold checkCaller
  rcases h with hunknown | ⟨hreport, hother⟩
  · rw [authenticate_unknown hread hunknown, ite_self]
  · rw [if_pos ⟨hreport, hother room hroom⟩]

/-- What is left of the request once it has looked at the room. -/
theorem admit_stranger {next : ℤ → RoomView → RoomItem → PeerItem → Handler Fields}
    (hread : Readable t roomId) (h : Stranger t req roomId peerId token) :
    admission req peerId token next now (queryRoom t roomId) =
      .fail (refusal (t.rooms.lookup roomId) now) := by
  unfold admission refusal
  rw [view_room]
  rcases checkRoom_cases (t.rooms.lookup roomId) now with
    ⟨room, hroom, -, hcheck⟩ | ⟨room, hroom, -, hcheck⟩ | ⟨hnone, hcheck⟩
  · rw [hcheck]
    dsimp only [Prog.ofExcept]
    rw [Prog.done_bind, checkCaller_stranger hread hroom h]
    rfl
  · rw [hcheck]
    rfl
  · rw [hcheck]
    rfl

theorem registerCandidates_unknown (h : ¬Known t roomId peerId token)
    (candidates : List Candidate) :
    t.registerCandidates roomId peerId token candidates = (false, t) := by
  unfold Table.registerCandidates
  cases hp : t.peers.lookup (roomId, peerId) with
  | none => rfl
  | some p =>
    have htoken : p.peerToken ≠ token := fun heq => h ⟨p, hp, heq⟩
    dsimp only
    rw [if_neg htoken]

theorem refusal_open (h : OpenAt t roomId now) :
    refusal (t.rooms.lookup roomId) now = unauthorized := by
  obtain ⟨room, hroom, hopen⟩ := h
  unfold refusal
  rcases checkRoom_cases
    (t.rooms.lookup roomId) now with ⟨r, -, -, hcheck⟩ | ⟨r, hr, hle, -⟩ | ⟨hnone, -⟩
  · rw [hcheck]
  · obtain rfl := Option.some.inj (hroom.symm.trans hr)
    omega
  · rw [hroom] at hnone
    cases hnone

end

section

variable {t t' : ServerTask} {roomId : RoomId} {peerId : PeerId} {token : Hex32} {now : ℤ}
  {found found' : Table}

theorem Served.makes (h : Served t) : Makes (Service.dispatch t.request) t.past t.rest := by
  obtain ⟨s, w, hsteps, ht⟩ := h
  exact steps_makes hsteps (fun u hu => absurd hu List.not_mem_nil) t ht

theorem looks_first (hserved : Served t) (hreq : Presents t.request roomId peerId token) :
    (t.past.length < 2 ∧ ∀ e ∈ t.past, e.call = .nowMs) ∨
    ∃ (s₁ : Shared) (r₁ : Reading) (s₂ : Shared) (r₂ : Reading) (rest : Past)
      (next : ℤ → RoomView → RoomItem → PeerItem → Handler Fields),
      t.past = ⟨s₁, r₁, .nowMs⟩ :: ⟨s₂, r₂, .queryRoom roomId⟩ :: rest ∧
      Makes
        (admission t.request peerId token next r₁.wallMs (queryRoom s₂.table roomId)) rest t.rest ∧
      (t.request.op = "register_candidate".toList → ∃ stored rejected, ∀ now view room caller,
        next now view room caller = writeCandidates roomId peerId token stored rejected) := by
  obtain ⟨next, hprogram, hwrite⟩ := hreq.program
  have hmakes := hserved.makes
  rw [hprogram] at hmakes
  rcases hmakes.next with hnil | ⟨s₁, r₁, past, hpast, hmakes⟩
  · left
    simp [hnil]
  rcases hmakes.next with hnil | ⟨s₂, r₂, rest, hrest, hmakes⟩
  · left
    simp [hpast, hnil]
  · right
    exact ⟨s₁, r₁, s₂, r₂, rest, next, by rw [hpast, hrest], hmakes, hwrite⟩

theorem looked_refused (hserved : Served t) (hreq : Presents t.request roomId peerId token)
    (hlooked : Looked t roomId now found) (hread : Readable found roomId)
    (h : Stranger found t.request roomId peerId token) :
    t.past.length = 2 ∧ Answered t (.error (refusal (found.rooms.lookup roomId) now)) ∧
      ∀ e ∈ t.past, e.after.table = e.before.table := by
  obtain ⟨clock, query, rest, hpast, -, rfl, -, rfl⟩ := hlooked
  rcases looks_first hserved hreq with ⟨hshort, -⟩ | ⟨s₁, r₁, s₂, r₂, rest', next,
    hpast', hmakes, -⟩
  · rw [hpast, List.length_cons, List.length_cons] at hshort
    omega
  obtain ⟨rfl, htail⟩ := List.cons.inj (hpast.symm.trans hpast')
  obtain ⟨rfl, rfl⟩ := List.cons.inj htail
  rw [admit_stranger hread h] at hmakes
  obtain ⟨rfl, hanswer⟩ := hmakes.ended rfl
  refine ⟨by rw [hpast]; rfl, hanswer, ?_⟩
  intro e he
  rw [hpast] at he
  rcases List.mem_cons.mp he with rfl | he
  · simp [Event.after, store, exec, execTable]
  · obtain rfl := List.mem_singleton.mp he
    simp [Event.after, store, exec, execTable]

theorem written_unknown (hserved : Served t) (hreq : Presents t.request roomId peerId token)
    (hop : t.request.op = "register_candidate".toList) {e : Event store} (he : e ∈ t.past)
    {candidates : List Candidate}
    (hcall : e.call = .registerCandidates roomId peerId token candidates)
    (hunknown : ¬Known e.before.table roomId peerId token) :
    e.after.table = e.before.table ∧ Answered t (.error unauthorized) := by
  obtain ⟨s, r, c⟩ := e
  obtain rfl : c = .registerCandidates roomId peerId token candidates := hcall
  rcases looks_first hserved hreq with ⟨-, hclock⟩ | ⟨s₁, r₁, s₂, r₂, rest, next, hpast,
    hmakes, hnext⟩
  · cases hclock _ he
  obtain ⟨stored, rejected, hnext⟩ := hnext hop
  have hrest :
    (⟨s, r, .registerCandidates roomId peerId token candidates⟩ : Event store) ∈ rest := by
    rw [hpast] at he
    rcases List.mem_cons.mp he with heq | he
    · cases heq
    rcases List.mem_cons.mp he with heq | he
    · cases heq
    exact he
  unfold admission at hmakes
  have hfailed : ∀ {err : OpError}, Makes (.fail err : Handler Fields) rest t.rest → False := by
    intro err hended
    rw [(hended.ended rfl).1] at hrest
    cases hrest
  cases hroom : checkRoom (queryRoom s₂.table roomId).room r₁.wallMs with
  | error err =>
    rw [hroom] at hmakes
    exact (hfailed hmakes).elim
  | ok room =>
    rw [hroom] at hmakes
    dsimp only [Prog.ofExcept] at hmakes
    rw [Prog.done_bind] at hmakes
    cases hcaller : checkCaller t.request (queryRoom s₂.table roomId) room peerId token with
    | error err =>
      rw [hcaller] at hmakes
      exact (hfailed hmakes).elim
    | ok caller =>
      rw [hcaller] at hmakes
      dsimp only [Prog.ofExcept] at hmakes
      rw [Prog.done_bind, hnext] at hmakes
      rcases hmakes.next with hnil | ⟨s₃, r₃, past, hpast₃, hmakes⟩
      · rw [hnil] at hrest
        cases hrest
      cases hreply : (store.exec r₃ (.registerCandidates roomId peerId token stored) s₃).1 with
      | true =>
        rw [hreply] at hmakes
        obtain ⟨rfl, -⟩ := hmakes.ended rfl
        rw [hpast₃] at hrest
        cases List.mem_singleton.mp hrest
        have hrefused : (s.table.registerCandidates roomId peerId token candidates).1 =
          true := hreply
        rw [registerCandidates_unknown hunknown] at hrefused
        cases hrefused
      | false =>
        rw [hreply] at hmakes
        obtain ⟨rfl, hanswer⟩ := hmakes.ended rfl
        rw [hpast₃] at hrest
        cases List.mem_singleton.mp hrest
        have hsame : (s.table.registerCandidates roomId peerId token candidates).2 = s.table := by
          rw [registerCandidates_unknown hunknown]
        exact ⟨hsame, hanswer⟩

end

/-- A request that shows no valid token is told the same whatever the room's peers are, and writes
nothing. -/
theorem strangers_learn_nothing {t : ServerTask} {roomId : RoomId} {peerId : PeerId} {token : Hex32}
    (hserved : Served t) (hreq : Presents t.request roomId peerId token) :
    (2 ≤ t.past.length → ∃ now found, Looked t roomId now found) ∧
    (∀ now found, Looked t roomId now found → Readable found roomId →
      Stranger found t.request roomId peerId token →
      (∀ e ∈ t.past, e.after.table = e.before.table) ∧
      (OpenAt found roomId now → Answered t (.error unauthorized)) ∧
      ∀ t' found', Served t' → t'.request = t.request → Looked t' roomId now found' →
        Readable found' roomId →
        Stranger found' t.request roomId peerId token →
        found'.rooms.lookup roomId = found.rooms.lookup roomId →
        ∃ result, Answered t result ∧ Answered t' result) ∧
    (t.request.op = "register_candidate".toList → ∀ e ∈ t.past, ∀ candidates,
      e.call = .registerCandidates roomId peerId token candidates →
      ¬Known e.before.table roomId peerId token →
      e.after.table = e.before.table ∧ Answered t (.error unauthorized)) := by
  refine ⟨?_, ?_, fun hop e he candidates hcall => written_unknown hserved hreq hop he hcall⟩
  · intro hlong
    rcases looks_first hserved hreq with ⟨hshort, -⟩ | ⟨s₁, r₁, s₂, r₂, rest, next, hpast, -, -⟩
    · omega
    exact ⟨r₁.wallMs, s₂.table, _, _, _, hpast, rfl, rfl, rfl, rfl⟩
  · intro now found hlooked hread hstranger
    obtain ⟨-, hanswer, hquiet⟩ := looked_refused hserved hreq hlooked hread hstranger
    refine ⟨hquiet, ?_, ?_⟩
    · intro hopen
      rw [refusal_open hopen] at hanswer
      exact hanswer
    · intro t' found' hserved' hsame hlooked' hread' hstranger' hroom
      rw [← hsame] at hreq hstranger'
      obtain ⟨-, hanswer', -⟩ := looked_refused hserved' hreq hlooked' hread' hstranger'
      rw [hroom] at hanswer'
      exact ⟨_, hanswer, hanswer'⟩

/-- The id of the second player with the token of the host. -/
def strayRegister : Service.Request := sampleRegister 2 '0'

/-- The request alone, after its first two calls. -/
def strayTask (s : Shared) : Option ServerTask :=
  (play (fun _ _ _ => True) Service.dispatch (List.replicate 2 (.advance 0 (sampleReading 5000 0)))
    ⟨s, [⟨strayRegister, s, [], Service.dispatch strayRegister⟩]⟩).bind fun w => w.tasks[0]?

theorem strayTask_served {s : Shared} {t : ServerTask} (h : strayTask s = some t) :
    Served t ∧ t.request = strayRegister := by
  obtain ⟨w, hplay, ht⟩ := Option.bind_eq_some_iff.mp h
  have hsteps := steps_of_play hplay
  obtain ⟨t', ht', hreq, -⟩ := Discipline.steps_prefix hsteps (i := 0) rfl
  obtain rfl := Option.some.inj (ht.symm.trans ht')
  refine ⟨⟨s, w, .head ⟨.start strayRegister, ?_, rfl⟩ hsteps, List.mem_of_getElem? ht⟩, hreq⟩
  intro c r hnext
  trivial

def sampleToken : Hex32 := ⟨List.replicate 32 '0', by decide, by decide⟩

/-- The room after all its peers have gone. -/
def desertedRoom : Shared :=
  { sampleMet.state with table := { sampleMet.state.table with peers := ∅ } }

theorem strayRegister_presents : Presents strayRegister sampleRoom 2 sampleToken :=
  .register rfl _ rfl rfl rfl rfl ([⟨"192.168.0.7".toList, 40000, .local⟩], 0) rfl

theorem strayTask_looked (s : Shared) :
    ∃ t, strayTask s = some t ∧ Looked t sampleRoom 5000 s.table := by
  obtain ⟨next, hprogram, -⟩ := strayRegister_presents.program
  unfold strayTask
  rw [hprogram]
  exact ⟨_, rfl, _, _, [], rfl, rfl, rfl, rfl, rfl⟩

theorem stray_register_refused : ∃ t t' : ServerTask, strayTask sampleMet.state = some t ∧
    strayTask desertedRoom = some t' ∧ Answered t (.error unauthorized) ∧
    Answered t' (.error unauthorized) := by
  obtain ⟨t, ht, hlooked⟩ := strayTask_looked sampleMet.state
  obtain ⟨t', ht', hlooked'⟩ := strayTask_looked desertedRoom
  obtain ⟨hserved, hsame⟩ := strayTask_served ht
  obtain ⟨hserved', hsame'⟩ := strayTask_served ht'
  have hread : Readable sampleMet.state.table sampleRoom :=
    fun id p hp => sampleMet_reachable.consistent.keyed (sampleRoom, id) p hp
  have hread' : Readable desertedRoom.table sampleRoom := nofun
  have hunknown : ¬Known sampleMet.state.table sampleRoom 2 sampleToken := by
    rintro ⟨p, hp, htoken⟩
    have hother : (sampleMet.state.table.peerAt (sampleRoom, 2)).map PeerItem.peerToken ≠
      some sampleToken := by
      decide +kernel
    exact hother (by rw [hp, ← htoken]; rfl)
  have hunknown' : ¬Known desertedRoom.table sampleRoom 2 sampleToken := nofun
  have hopen : OpenAt sampleMet.state.table sampleRoom 5000 := by
    have hroom : (sampleMet.state.table.rooms.lookup sampleRoom).any fun room =>
      5000 < room.expiresAtMs := by
      decide +kernel
    obtain ⟨room, hlookup, hlt⟩ := (Option.any_eq_true _ _).mp hroom
    exact ⟨room, hlookup, of_decide_eq_true hlt⟩
  have hreq : Presents t.request sampleRoom 2 sampleToken := hsame ▸ strayRegister_presents
  obtain ⟨-, hrefused, -⟩ := strangers_learn_nothing hserved hreq
  obtain ⟨-, hanswer, hequal⟩ := hrefused 5000 _ hlooked hread (.inl hunknown)
  obtain ⟨result, hresult, hresult'⟩ :=
    hequal t' _ hserved' (hsame'.trans hsame.symm) hlooked' hread' (.inl hunknown') rfl
  obtain rfl := Option.some.inj (hresult.symm.trans (hanswer hopen))
  exact ⟨t, t', ht, ht', hresult, hresult'⟩

end Sangtachi.Control
