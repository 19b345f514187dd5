import Sangtachi.Control.RoomConsistency

/-! # The end of a room

A room whose lease has lapsed stays lapsed unless a renewal takes effect. The renewal compares
the stored expiry with the time at which its request began, so a request that began in time can
still renew a room that others have found expired. -/
namespace Sangtachi.Control

open AtomicPrograms

def Ticking (s : Shared) (c : Call) (r : Reading) : Prop := c = .nowMs → s.clock ≤ r.wallMs

/-- The room is there and its lease ended at `expiry`, which the clock has passed. -/
def Lapsed (roomId : RoomId) (expiry : ℤ) (s : Shared) : Prop :=
  ∃ room, s.table.rooms.lookup roomId = some room ∧ room.expiresAtMs = expiry ∧ expiry ≤ s.clock

def Spares (roomId : RoomId) (s : Shared) (c : Call) : Prop :=
  ∀ now expires, c = .renewRoom roomId now expires → s.table.roomOpen roomId now = false

def Lasting (roomId : RoomId) (s : Shared) (c : Call) (r : Reading) : Prop :=
  Ticking s c r ∧ Spares roomId s c

def KeepsExpiry (roomId : RoomId) (t t' : Table) : Prop :=
  ∀ room, t.rooms.lookup roomId = some room →
    ∃ room', t'.rooms.lookup roomId = some room' ∧ room'.expiresAtMs = room.expiresAtMs

theorem KeepsExpiry.of_rooms {roomId : RoomId} {t t' : Table} (h : t'.rooms = t.rooms) :
    KeepsExpiry roomId t t' := by
  intro room hroom
  exact ⟨room, h ▸ hroom, rfl⟩

theorem KeepsExpiry.put {roomId roomId' : RoomId} {t : Table} {room' : RoomItem}
    (h : roomId' = roomId → ∀ room, t.rooms.lookup roomId = some room →
      room'.expiresAtMs = room.expiresAtMs) :
    KeepsExpiry roomId t (t.putRoom roomId' room') := by
  intro room hroom
  by_cases heq : roomId' = roomId
  · subst heq
    exact ⟨room', AList.lookup_insert _, h rfl room hroom⟩
  · exact ⟨room, by rw [← hroom]; exact AList.lookup_insert_ne (Ne.symm heq), rfl⟩

theorem renewItem_keepsExpiry (roomId roomId' : RoomId) (sk : SortKey) (ttl : ℤ) (t : Table) :
    KeepsExpiry roomId t (t.renewItem roomId' sk ttl).2 := by
  unfold Table.renewItem
  cases sk with
  | room =>
    cases hr : t.rooms.lookup roomId' with
    | none => exact .of_rooms rfl
    | some room' =>
      refine .put ?_
      rintro rfl room hroom
      rw [hr] at hroom
      obtain rfl := Option.some.inj hroom
      rfl
  | peer id =>
    cases hp : t.peers.lookup (roomId', id) <;> exact .of_rooms (by simp [hp])
  | vip ip =>
    cases hp : t.vips.lookup (roomId', ip) <;> exact .of_rooms (by simp [hp])
  | name key =>
    cases hp : t.names.lookup (roomId', key) <;> exact .of_rooms (by simp [hp])
  | pair key =>
    cases hp : t.pairs.lookup (roomId', key) <;> exact .of_rooms (by simp [hp])

theorem execTable_keepsExpiry {roomId : RoomId} {s : Shared} {c : Call} (r : Reading)
    (h : Spares roomId s c) :
    KeepsExpiry roomId s.table (execTable r c s.table).2 := by
  have same : KeepsExpiry roomId s.table s.table := .of_rooms rfl
  cases c with
  | createRoom roomId' host token nonce now name =>
    rcases Table.createRoom_cases r.conflicts roomId' host token nonce now name s.table with
      ⟨hx, habsent, -⟩ | ⟨reply, hx, -⟩
    · have hput :
        KeepsExpiry roomId s.table (s.table.putRoom roomId' (Table.newRoom now host)) := by
        refine .put ?_
        rintro rfl room hroom
        rw [habsent] at hroom
        cases hroom
      simpa [execTable, hx, Table.putPeer, KeepsExpiry] using hput
    · simpa [execTable, hx] using same
  | joinRoom roomId' vip peer token nonce now expires name =>
    rcases Table.joinRoom_cases r.conflicts roomId' vip peer token nonce now expires
      name s.table with
      ⟨hx, -⟩ | ⟨reply, hx, -⟩
    · exact .of_rooms (by simp [execTable, hx, Table.putPeer])
    · simpa [execTable, hx] using same
  | registerCandidates roomId' peer token candidates =>
    refine .of_rooms ?_
    simp only [execTable, Table.registerCandidates]
    split
    · split <;> rfl
    · rfl
  | releasePeer roomId' peer vip host nonce keys =>
    rcases Table.releasePeer_cases r.conflicts roomId' peer vip host nonce keys
      s.table with ⟨hx, -⟩ | ⟨reply, hx, -⟩
    · exact .of_rooms (by simp [execTable, hx, Table.dropPeer, Table.dropPair])
    · simpa [execTable, hx] using same
  | reclaimPeer roomId' peer vip nonce now keys =>
    rcases Table.reclaimPeer_cases r.conflicts roomId' peer vip nonce now keys
      s.table with ⟨hx, -⟩ | ⟨reply, hx, -⟩
    · exact .of_rooms (by simp [execTable, hx, Table.dropPeer])
    · simpa [execTable, hx] using same
  | confirmPair roomId' host other wall mono boot expires =>
    rcases Table.confirmPair_cases r.conflicts roomId' host other wall mono boot
      expires s.table with
      ⟨hx, -⟩ | ⟨reply, hx, -⟩
    · exact .of_rooms (by simp [execTable, hx])
    · simpa [execTable, hx] using same
  | renewRoom roomId' now expires =>
    simp only [execTable, Table.renewRoom]
    cases hr : s.table.rooms.lookup roomId' with
    | none => exact same
    | some room' =>
      by_cases hopen : now < room'.expiresAtMs
      · simp only [hopen, if_true]
        refine .put ?_
        rintro rfl room hroom
        have hnot := h now expires rfl
        simp [Table.roomOpen, hr, hopen] at hnot
      · simpa only [hopen, if_false] using same
  | renewItem roomId' sk ttl => exact renewItem_keepsExpiry roomId roomId' sk ttl s.table
  | _ => exact same

theorem exec_clock {s : Shared} {c : Call} {r : Reading} (h : Ticking s c r) :
    s.clock ≤ (exec r c s).2.clock := by
  cases c with
  | nowMs => exact h rfl
  | _ => exact le_refl _

theorem exec_lapsed {roomId : RoomId} {expiry : ℤ} {s : Shared} {c : Call} {r : Reading}
    (h : Lapsed roomId expiry s) (hadm : Lasting roomId s c r) :
    Lapsed roomId expiry (exec r c s).2 := by
  obtain ⟨room, hroom, he, hle⟩ := h
  obtain ⟨room', hroom', he'⟩ := execTable_keepsExpiry r hadm.2 room hroom
  exact ⟨room', hroom', he'.trans he, hle.trans (exec_clock hadm.1)⟩

/-- Requests under which a lapsed room stays lapsed. -/
def lapse (roomId : RoomId) (expiry : ℤ) : Discipline store (Lasting roomId) where
  Inv := Lapsed roomId expiry
  Grows _ _ := True
  Licensed _ _ := True
  refl _ := trivial
  trans _ _ := trivial
  licensed_mono _ h := h
  exec h _ hadm := ⟨exec_lapsed h hadm, trivial⟩

section

variable {roomId : RoomId} {expiry : ℤ} {α : Type} {Q : Past → Shared → Except OpError α →
  Prop} {past : Past}
  {s : Shared}

theorem lapse_ofExcept {β : Type} {x : Except OpError β} {f : β → Handler α}
    (herr : ∀ e, x = .error e → Q past s (.error e))
    (hok : ∀ b, x = .ok b → (lapse roomId expiry).Safe Q (f b) past s) :
    (lapse roomId expiry).Safe Q (Prog.ofExcept x >>= f) past s := by
  cases x with
  | ok b => exact hok b rfl
  | error e => exact herr e rfl

theorem lapse_call {c : Call} {next : Reply c → Handler α}
    (h : ∀ before r, Lapsed roomId expiry before → Lasting roomId before c r →
      (lapse roomId expiry).Safe Q (next (exec r c before).1) (past ++ [⟨before, r, c⟩])
      (exec r c before).2) :
    (lapse roomId expiry).Safe Q (.call c next) past s :=
  ⟨trivial, fun before r _ hinv hadm => h before r hinv hadm⟩

theorem lapse_nowMs {f : ℤ → Handler α}
    (h : ∀ now before r, expiry ≤ now →
      (lapse roomId expiry).Safe Q (f now) (past ++ [⟨before, r, .nowMs⟩])
      (exec r .nowMs before).2) : (lapse roomId expiry).Safe Q (Service.nowMs >>= f) past s := by
  refine lapse_call ?_
  intro before r hlapsed hadm
  obtain ⟨room, -, -, hle⟩ := hlapsed
  exact h r.wallMs before r (hle.trans (hadm.1 rfl))

theorem checkRoom_lapsed {room : RoomItem} {now : ℤ} (h : room.expiresAtMs ≤ now) :
    checkRoom (some room) now = .error roomExpired := by
  rcases checkRoom_cases (some room) now with ⟨r, hr, hlt, -⟩ | ⟨r, -, -, he⟩ | ⟨hr, -⟩
  · obtain rfl := Option.some.inj hr
    omega
  · exact he
  · cases hr

theorem lapse_checked {f : RoomItem → Handler α} {now : ℤ} (hnow : expiry ≤ now) {t : Table}
    (ht : ∃ room, t.rooms.lookup roomId = some room ∧ room.expiresAtMs = expiry)
    (herr : Q past s (.error roomExpired)) :
    (lapse roomId expiry).Safe Q
      (Prog.ofExcept (checkRoom (t.rooms.lookup roomId) now) >>= f) past s := by
  obtain ⟨room, hroom, he⟩ := ht
  rw [hroom, checkRoom_lapsed (he.trans_le hnow)]
  exact herr

end

def Elsewhere (roomId : RoomId) (_ : Past) (_ : Shared) (result : Except OpError Issued) : Prop :=
  ∀ i, result = .ok i → i.roomId ≠ roomId

theorem elsewhere_error {roomId : RoomId} {past : Past} {s : Shared} (e : OpError) :
    Elsewhere roomId past s (.error e) := by
  rintro i ⟨⟩

section

variable {roomId : RoomId} {expiry : ℤ} {nonce : Hex32} {name : Name} {now : ℤ} {token : Hex32}

theorem replay_lapsed (hnow : expiry ≤ now) (found : NonceItem) (past : Past) (s : Shared) :
    (lapse roomId expiry).Safe (Elsewhere roomId) (Service.replay found now) past s := by
  refine lapse_call ?_
  intro before r hlapsed _
  obtain ⟨room, hroom, he, -⟩ := hlapsed
  by_cases hfound : found.roomId = roomId
  · subst hfound
    exact lapse_checked hnow ⟨room, hroom, he⟩ (elsewhere_error _)
  · refine lapse_ofExcept (fun e _ => elsewhere_error e) ?_
    intro room' _
    cases (exec r (.queryRoom found.roomId) before).1.peer found.peerId with
    | none => exact elsewhere_error _
    | some peer =>
      rintro i ⟨rfl⟩
      exact hfound

theorem replayJoin_lapsed (hnow : expiry ≤ now) (found : NonceItem) (roomId' : RoomId) (past : Past)
    (s : Shared) :
    (lapse roomId expiry).Safe (Elsewhere roomId)
    (Service.replayJoin found roomId' now) past s := by
  unfold Service.replayJoin
  split
  · exact elsewhere_error _
  · exact replay_lapsed hnow found past s

theorem rereadNonce_lapsed {next : NonceItem → Handler Issued}
    (h : ∀ found past s, (lapse roomId expiry).Safe (Elsewhere roomId) (next found) past s)
    (past : Past) (s : Shared) :
    (lapse roomId expiry).Safe (Elsewhere roomId) (Service.rereadNonce nonce >>= next) past s := by
  refine lapse_call ?_
  intro before r _ _
  cases (exec r (.getNonce nonce) before).1 with
  | none => exact elsewhere_error _
  | some found => exact h found _ _

theorem createAttempts_lapsed (hnow : expiry ≤ now) {hostId : PeerId} (left : ℕ) (past : Past)
    (s : Shared) :
    (lapse roomId expiry).Safe (Elsewhere roomId)
    (Service.createAttempts nonce name now hostId token left) past s := by
  induction left generalizing past s with
  | zero => exact elsewhere_error _
  | succ left ih =>
    refine lapse_call ?_
    intro before r _ _
    refine lapse_call ?_
    intro before' r' hlapsed _
    generalize hdrawn : (exec r .newRoomId before).1 = drawn
    rcases Table.createRoom_cases r'.conflicts drawn hostId token nonce now name before'.table with
      ⟨hx, habsent, -⟩ | ⟨reply, hx, hne, -⟩
    · have hreply : (exec r' (.createRoom drawn hostId token nonce now name) before').1 =
        .ok .created := by
        simp [exec, execTable, hx]
      rw [hreply]
      rintro i ⟨rfl⟩ heq
      obtain ⟨room, hroom, -⟩ := hlapsed
      rw [← heq, habsent] at hroom
      cases hroom
    · have hreply :
        (exec r' (.createRoom drawn hostId token nonce now name) before').1 = reply := by
        simp [exec, execTable, hx]
      rw [hreply]
      cases reply with
      | error e => exact elsewhere_error e
      | ok result =>
        cases result with
        | created => exact absurd rfl hne
        | nonceExists => exact rereadNonce_lapsed (replay_lapsed hnow) _ _
        | roomIdTaken => exact ih _ _

theorem joinPool_lapsed (hnow : expiry ≤ now) {roomId' : RoomId} (hne : roomId' ≠ roomId)
    {room : RoomItem} {peerId : PeerId} {redraw : List Text → Handler Issued}
    (hredraw : ∀ pool past s, (lapse roomId expiry).Safe (Elsewhere roomId) (redraw pool) past s)
    (pool : List Text) (past : Past) (s : Shared) :
    (lapse roomId expiry).Safe (Elsewhere roomId)
      (Service.joinPool roomId' room nonce name now token peerId redraw pool) past s := by
  induction pool generalizing past s with
  | nil => exact elsewhere_error _
  | cons vip rest ih =>
    refine lapse_call ?_
    intro before r _ _
    cases (exec r (.joinRoom roomId' vip peerId token nonce now room.expiresAtMs name)
      before).1 with
    | error e => exact elsewhere_error e
    | ok result =>
      cases result with
      | joined =>
        rintro i ⟨rfl⟩
        exact hne
      | nonceExists =>
        exact rereadNonce_lapsed (fun found => replayJoin_lapsed hnow found roomId') _ _
      | roomGone =>
        refine lapse_call ?_
        intro before' r' _ _
        cases (exec r' (.getRoom roomId') before').1 with
        | none => exact elsewhere_error _
        | some room => exact elsewhere_error _
      | nameTaken => exact elsewhere_error _
      | vipTaken => exact ih _ _
      | peerIdTaken => exact hredraw _ _ _

theorem joinAttempts_lapsed (hnow : expiry ≤ now) {roomId' : RoomId} (hne : roomId' ≠ roomId)
    {room : RoomItem} (left : ℕ) (peerId : PeerId) (pool : List Text) (past : Past) (s : Shared) :
    (lapse roomId expiry).Safe (Elsewhere roomId)
      (Service.joinAttempts roomId' room nonce name now token left peerId pool) past s := by
  induction left generalizing peerId pool past s with
  | zero =>
    refine joinPool_lapsed hnow hne ?_ pool past s
    intro pool' past' s'
    exact elsewhere_error _
  | succ left ih =>
    refine joinPool_lapsed hnow hne ?_ pool past s
    intro pool' past' s'
    refine lapse_call ?_
    intro before r _ _
    exact ih _ _ _ _

end

theorem createRoom_lapsed (roomId : RoomId) (expiry : ℤ) (body : List (Text × Json)) (s : Shared) :
    (lapse roomId expiry).Safe (Elsewhere roomId) (Service.createRoom body) [] s := by
  refine lapse_ofExcept (fun e _ => elsewhere_error e) fun nonce _ => ?_
  refine lapse_ofExcept (fun e _ => elsewhere_error e) fun name _ => ?_
  refine lapse_nowMs fun now before r hnow => ?_
  refine lapse_call fun before r _ _ => ?_
  cases (exec r (.getNonce nonce) before).1 with
  | some found => exact replay_lapsed hnow found _ _
  | none =>
    refine lapse_call fun before r _ _ => ?_
    refine lapse_call fun before r _ _ => ?_
    exact createAttempts_lapsed hnow _ _ _

theorem joinRoom_lapsed (roomId : RoomId) (expiry : ℤ) (body : List (Text × Json)) (s : Shared) :
    (lapse roomId expiry).Safe (Elsewhere roomId) (Service.joinRoom body) [] s := by
  refine lapse_ofExcept (fun e _ => elsewhere_error e) fun nonce _ => ?_
  refine lapse_ofExcept (fun e _ => elsewhere_error e) fun name _ => ?_
  refine lapse_ofExcept (fun e _ => elsewhere_error e) fun roomId' _ => ?_
  refine lapse_nowMs fun now before r hnow => ?_
  refine lapse_call fun before r _ _ => ?_
  cases (exec r (.getNonce nonce) before).1 with
  | some found => exact replayJoin_lapsed hnow found roomId' _ _
  | none =>
    refine lapse_call fun before r hlapsed _ => ?_
    obtain ⟨room, hroom, he, -⟩ := hlapsed
    by_cases heq : roomId' = roomId
    · subst heq
      exact lapse_checked hnow ⟨room, hroom, he⟩ (elsewhere_error _)
    · refine lapse_ofExcept (fun e _ => elsewhere_error e) fun room' _ => ?_
      refine lapse_call fun before r _ _ => ?_
      refine lapse_call fun before r _ _ => ?_
      exact joinAttempts_lapsed hnow heq _ _ _ _ _

def Refusing (roomId : RoomId) (body : List (Text × Json)) (_ : Past) (_ : Shared)
    (result : Except OpError Fields) : Prop :=
  normalizeRoomId (field body "room_id".toList) = .ok roomId → ∀ fields, result ≠ .ok fields

theorem refusing_error {roomId : RoomId} {body : List (Text × Json)} {past : Past} {s : Shared}
    (e : OpError) :
    Refusing roomId body past s (.error e) := by
  rintro - fields ⟨⟩

theorem query_lapsed {roomId roomId' : RoomId} {expiry : ℤ} {body : List (Text × Json)}
    (hbody : normalizeRoomId (field body "room_id".toList) = .ok roomId')
    {f : ℤ → RoomView → RoomItem → Handler Fields} (past : Past) (s : Shared) :
    (lapse roomId expiry).Safe (Refusing roomId body) (do
      let now ← Service.nowMs
      let view ← Service.queryRoom roomId'
      let room ← .ofExcept (checkRoom view.room now)
      f now view room) past s := by
  by_cases heq : roomId' = roomId
  · subst heq
    refine lapse_nowMs fun now before r hnow => ?_
    refine lapse_call fun before r hlapsed _ => ?_
    obtain ⟨room, hroom, he, -⟩ := hlapsed
    exact lapse_checked hnow ⟨room, hroom, he⟩ (refusing_error _)
  · refine Discipline.safe_of_forall (fun _ _ => trivial) ?_ _ _ _
    intro past s result hroom
    rw [hbody] at hroom
    exact absurd (Except.ok.inj hroom) heq

theorem registerCandidate_lapsed (roomId : RoomId) (expiry : ℤ) (body : List (Text × Json))
    (s : Shared) :
    (lapse roomId expiry).Safe (Refusing roomId body) (Service.registerCandidate body) [] s := by
  refine lapse_ofExcept (fun e _ => refusing_error e) fun peerId _ => ?_
  refine lapse_ofExcept (fun e _ => refusing_error e) fun token _ => ?_
  refine lapse_ofExcept (fun e _ => refusing_error e) fun stored _ => ?_
  exact lapse_ofExcept (fun e _ => refusing_error e) fun roomId' hroom => query_lapsed hroom _ _

theorem getPeers_lapsed (roomId : RoomId) (expiry : ℤ) (body : List (Text × Json)) (s : Shared) :
    (lapse roomId expiry).Safe (Refusing roomId body) (Service.getPeers body) [] s := by
  refine lapse_ofExcept (fun e _ => refusing_error e) fun peerId _ => ?_
  refine lapse_ofExcept (fun e _ => refusing_error e) fun token _ => ?_
  exact lapse_ofExcept (fun e _ => refusing_error e) fun roomId' hroom => query_lapsed hroom _ _

theorem hostReport_lapsed (roomId : RoomId) (expiry : ℤ) (body : List (Text × Json)) (s : Shared) :
    (lapse roomId expiry).Safe (Refusing roomId body) (Service.hostReport body) [] s := by
  refine lapse_ofExcept (fun e _ => refusing_error e) fun peerId _ => ?_
  refine lapse_ofExcept (fun e _ => refusing_error e) fun token _ => ?_
  refine lapse_ofExcept (fun e _ => refusing_error e) fun departed _ => ?_
  refine lapse_ofExcept (fun e _ => refusing_error e) fun confirms _ => ?_
  exact lapse_ofExcept (fun e _ => refusing_error e) fun roomId' hroom => query_lapsed hroom _ _

/-- The room that a success is about: the one a place was issued in, or the one that the body names.
-/
inductive Concerns (req : Service.Request) (roomId : RoomId) : Fields → Prop where
  | place {i : Issued} (op : req.op = "create_room".toList ∨ req.op = "join_room".toList)
      (room : i.roomId = roomId) : Concerns req roomId (.issued i)
  | other {body : List (Text × Json)} {fields : Fields} (notCreate : req.op ≠ "create_room".toList)
      (notJoin : req.op ≠ "join_room".toList) (obj : req.body = .obj body)
      (room : normalizeRoomId (field body "room_id".toList) = .ok roomId) :
      Concerns req roomId fields

def NoSuccess (roomId : RoomId) (req : Service.Request) (_ : Past) (_ : Shared)
    (result : Except OpError Fields) : Prop :=
  ∀ fields, result = .ok fields → ¬Concerns req roomId fields

section

variable {roomId : RoomId} {expiry : ℤ} {req : Service.Request} {s : Shared}

theorem place_noSuccess {p : Handler Issued}
    (hop : req.op = "create_room".toList ∨ req.op = "join_room".toList)
    (h : (lapse roomId expiry).Safe (Elsewhere roomId) p [] s) (hs : Lapsed roomId expiry s) :
    (lapse roomId expiry).Safe (NoSuccess roomId req)
    (p >>= fun issued => return .issued issued) [] s := by
  refine Discipline.safe_bind (h.weaken hs ?_)
  intro past' s' result _ _ helse
  cases result with
  | error e => rintro fields ⟨⟩
  | ok i =>
    rintro fields ⟨rfl⟩ hconcerns
    cases hconcerns with
    | place op room => exact helse i rfl room
    | other notCreate notJoin => exact hop.elim notCreate notJoin

theorem other_noSuccess {p : Handler Fields} {body : List (Text × Json)}
    (hbody : req.body = .obj body) (hcreate : req.op ≠ "create_room".toList)
    (hjoin : req.op ≠ "join_room".toList)
    (h : (lapse roomId expiry).Safe (Refusing roomId body) p [] s) (hs : Lapsed roomId expiry s) :
    (lapse roomId expiry).Safe (NoSuccess roomId req) p [] s := by
  refine h.weaken hs ?_
  rintro past' s' result - - hrefuse fields rfl hconcerns
  cases hconcerns with
  | place op => exact op.elim hcreate hjoin
  | other _ _ obj room =>
    obtain rfl := Json.obj.inj (hbody.symm.trans obj)
    exact hrefuse room fields rfl

theorem error_noSuccess (e : OpError) :
    (lapse roomId expiry).Safe (NoSuccess roomId req) (Prog.fail e : Handler Fields) [] s := by
  rintro fields ⟨⟩

theorem dispatch_lapsed (roomId : RoomId) (expiry : ℤ) (req : Service.Request) (s : Shared)
    (hs : Lapsed roomId expiry s) :
    (lapse roomId expiry).Safe (NoSuccess roomId req) (Service.dispatch req) [] s := by
  unfold Service.dispatch
  by_cases hcreate : req.op = "create_room".toList
  · rw [if_pos hcreate]
    cases req.body with
    | obj body => exact place_noSuccess (.inl hcreate) (createRoom_lapsed roomId expiry body s) hs
    | _ => exact error_noSuccess _
  by_cases hjoin : req.op = "join_room".toList
  · rw [if_neg hcreate, if_pos hjoin]
    cases req.body with
    | obj body => exact place_noSuccess (.inr hjoin) (joinRoom_lapsed roomId expiry body s) hs
    | _ => exact error_noSuccess _
  by_cases hregister : req.op = "register_candidate".toList
  · rw [if_neg hcreate, if_neg hjoin, if_pos hregister]
    cases hbody : req.body with
    | obj body =>
      exact other_noSuccess hbody hcreate hjoin (registerCandidate_lapsed roomId expiry body s) hs
    | _ => exact error_noSuccess _
  by_cases hpeers : req.op = "get_peers".toList
  · rw [if_neg hcreate, if_neg hjoin, if_neg hregister, if_pos hpeers]
    cases hbody : req.body with
    | obj body =>
      exact other_noSuccess hbody hcreate hjoin (getPeers_lapsed roomId expiry body s) hs
    | _ => exact error_noSuccess _
  by_cases hreport : req.op = "host_report".toList
  · rw [if_neg hcreate, if_neg hjoin, if_neg hregister, if_neg hpeers, if_pos hreport]
    cases hbody : req.body with
    | obj body =>
      exact other_noSuccess hbody hcreate hjoin (hostReport_lapsed roomId expiry body s) hs
    | _ => exact error_noSuccess _
  rw [if_neg hcreate, if_neg hjoin, if_neg hregister, if_neg hpeers, if_neg hreport]
  exact error_noSuccess _

end

/-! ## Runs -/

/-- The clock reading that a request compares the expiry with. -/
def ownNow (past : Past) : Option ℤ :=
  past.findSome? fun e => match e.call with
    | .nowMs => some e.reading.wallMs
    | _ => none

/-- The calls whose replies tell a request whether the room is open at `now`. -/
def LooksAt (roomId : RoomId) (now : ℤ) : Call → Prop
  | .getRoom r => r = roomId
  | .queryRoom r => r = roomId
  | .joinRoom r _ _ _ _ now' _ _ => r = roomId ∧ now' = now
  | .renewRoom r now' _ => r = roomId ∧ now' = now
  | _ => False

instance decidableLooksAt (roomId : RoomId) (now : ℤ) (c : Call) :
    Decidable (LooksAt roomId now c) :=
  match c with
  | .getRoom r => inferInstanceAs (Decidable (r = roomId))
  | .queryRoom r => inferInstanceAs (Decidable (r = roomId))
  | .joinRoom r _ _ _ _ now' _ _ => inferInstanceAs (Decidable (r = roomId ∧ now' = now))
  | .renewRoom r now' _ => inferInstanceAs (Decidable (r = roomId ∧ now' = now))
  | .nowMs | .monoNs | .bootId | .newPeerId | .newPeerToken | .newRoomId | .getNonce
    _ | .createRoom ..
  | .registerCandidates .. | .releasePeer .. | .reclaimPeer .. | .confirmPair .. | .renewItem .. =>
    .isFalse fun h => h

/-- After the calls `pre`, the call read `now >= expires_at_ms`. -/
def FoundExpired (pre : Past) (e : Event store) (roomId : RoomId) : Prop :=
  ∃ now room, ownNow pre = some now ∧ LooksAt roomId now e.call ∧
    e.before.table.rooms.lookup roomId = some room ∧ room.expiresAtMs ≤ now

/-- A join transaction that was cancelled on the room's condition. -/
def RoomGone (e : Event store) : Prop :=
  ∃ roomId ip peer token nonce now expires name,
    e.call = .joinRoom roomId ip peer token nonce now expires name ∧
    (e.before.table.joinRoom e.reading.conflicts roomId ip peer token nonce now expires name).1 =
      .ok .roomGone

def AnsweredExpired (t : ServerTask) : Prop :=
  ∃ err, t.rest.outcome = some (.error err) ∧ err.code = .roomExpired

/-- The request found the room expired, and that decided it: its next call is the answer, or the
read with which a join tells an expired room from an unknown one. -/
def Refused (t : ServerTask) (roomId : RoomId) : Prop :=
  ∃ pre e post, t.past = pre ++ e :: post ∧ FoundExpired pre e roomId ∧
    (RoomGone e ∨ post = [] ∧ AnsweredExpired t)

/-- The clock ticks, and a room that some request was refused for is not renewed. -/
def TimelyStep (w w' : ServerWorld) : Prop :=
  Step (fun s c r => Ticking s c r ∧ ∀ roomId, (∃ t ∈ w.tasks, Refused t roomId) →
    Spares roomId s c)
    Service.dispatch w w'

abbrev TimelySteps : ServerWorld → ServerWorld → Prop := Relation.ReflTransGen TimelyStep

/-- What holds between the calls of a timely run. -/
structure OnTime (w : ServerWorld) : Prop where
  now : ∀ t ∈ w.tasks, ∀ now, ownNow t.past = some now → now ≤ w.state.clock
  refused : ∀ t ∈ w.tasks, ∀ roomId, Refused t roomId → ∃ expiry, Lapsed roomId expiry w.state

theorem ownNow_snoc {past : Past} {e : Event store} {now : ℤ}
    (h : ownNow (past ++ [e]) = some now) :
    ownNow past = some now ∨ e.call = .nowMs ∧ e.reading.wallMs = now := by
  unfold ownNow at h ⊢
  rw [List.findSome?_append] at h
  cases hp : List.findSome? (fun e : Event store => match e.call with
    | .nowMs => some e.reading.wallMs
    | _ => none) past with
  | some now' => exact .inl (by simpa [hp] using h)
  | none =>
    right
    rw [hp, Option.none_or] at h
    obtain ⟨before, reading, call⟩ := e
    cases call <;> simp_all

theorem looksAt_lasting {roomId : RoomId} {now : ℤ} {s : Shared} {c : Call} {room : RoomItem}
    (h : LooksAt roomId now c) (hroom : s.table.rooms.lookup roomId = some room)
    (hle : room.expiresAtMs ≤ now) :
    Spares roomId s c := by
  rintro now' expires rfl
  obtain ⟨-, rfl⟩ := h
  simpa [Table.roomOpen, hroom] using hle

theorem refused_cases {t : ServerTask} {e : Event store} {roomId : RoomId} {rest : Handler Fields}
    (h : Refused ⟨t.request, t.began, t.past ++ [e], rest⟩ roomId) :
    Refused t roomId ∨ FoundExpired t.past e roomId := by
  obtain ⟨pre, e', post, hsplit, hfound, hwhy⟩ := h
  rcases List.eq_nil_or_concat post with rfl | ⟨post', last, rfl⟩
  · obtain ⟨rfl, he⟩ := List.append_inj' hsplit rfl
    obtain rfl : e = e' := by simpa using he
    exact .inr hfound
  · have hpast : t.past = pre ++ e' :: post' := by
      have hsplit' : t.past ++ [e] = (pre ++ e' :: post') ++ [last] := by simpa using hsplit
      exact (List.append_inj' hsplit' rfl).1
    rcases hwhy with hgone | ⟨hnil, -⟩
    · exact .inl ⟨pre, e', post', hpast, hfound, .inl hgone⟩
    · simp at hnil

theorem Refused.advance {t : ServerTask} {e : Event store} {roomId : RoomId}
    {rest : Handler Fields} {c : Call} {next : Reply c → Handler Fields}
    (hrest : t.rest = .call c next) (h : Refused t roomId) :
    Refused ⟨t.request, t.began, t.past ++ [e], rest⟩ roomId := by
  obtain ⟨pre, e', post, hsplit, hfound, hwhy⟩ := h
  rcases hwhy with hgone | ⟨-, err, hout, -⟩
  · exact ⟨pre, e', post ++ [e], by simp [hsplit], hfound, .inl hgone⟩
  · simp [hrest, Prog.outcome] at hout

theorem timelyStep_onTime {w w' : ServerWorld} (h : OnTime w) (hstep : TimelyStep w w') :
    OnTime w' := by
  rcases step_cases hstep with ⟨q, rfl⟩ | ⟨i, t, r, c, next, ht, hrest, ⟨htick, hspare⟩, rfl⟩
  · constructor
    · intro t ht now hnow
      rcases List.mem_append.mp ht with ht | ht
      · exact h.now t ht now hnow
      · obtain rfl := List.mem_singleton.mp ht
        cases hnow
    · intro t ht roomId hrefused
      rcases List.mem_append.mp ht with ht | ht
      · exact h.refused t ht roomId hrefused
      · obtain rfl := List.mem_singleton.mp ht
        obtain ⟨pre, e, post, hsplit, -⟩ := hrefused
        simp at hsplit
  · have hmem : t ∈ w.tasks := List.mem_of_getElem? ht
    have hclock : w.state.clock ≤ (exec r c w.state).2.clock := exec_clock htick
    have hkeep : ∀ u ∈ w.tasks, ∀ roomId, Refused u roomId →
      ∃ expiry, Lapsed roomId expiry (exec r c w.state).2 := by
      intro u hu roomId hrefused
      obtain ⟨expiry, hlapsed⟩ := h.refused u hu roomId hrefused
      exact ⟨expiry, exec_lapsed hlapsed ⟨htick, hspare roomId ⟨u, hu, hrefused⟩⟩⟩
    constructor
    · intro u hu now hnow
      rcases List.mem_or_eq_of_mem_set hu with hu | rfl
      · exact (h.now u hu now hnow).trans hclock
      · rcases ownNow_snoc hnow with hnow | ⟨hcall, hread⟩
        · exact (h.now t hmem now hnow).trans hclock
        · obtain rfl : c = .nowMs := hcall
          exact hread.ge
    · intro u hu roomId hrefused
      rcases List.mem_or_eq_of_mem_set hu with hu | rfl
      · exact hkeep u hu roomId hrefused
      · rcases refused_cases hrefused with hrefused | ⟨now, room, hnow, hlooks, hroom, hle⟩
        · exact hkeep t hmem roomId hrefused
        · have hlapsed : Lapsed roomId room.expiresAtMs w.state :=
            ⟨room, hroom, rfl, hle.trans (h.now t hmem now hnow)⟩
          exact ⟨_, exec_lapsed hlapsed ⟨htick, looksAt_lasting hlooks hroom hle⟩⟩

theorem timelySteps_onTime {w w' : ServerWorld} (h : OnTime w) (hsteps : TimelySteps w w') :
    OnTime w' := by
  induction hsteps with
  | refl => exact h
  | tail _ hstep ih => exact timelyStep_onTime ih hstep

theorem initial_onTime (clock : ℤ) : OnTime (initialWorld clock) where
  now _ ht := absurd ht List.not_mem_nil
  refused _ ht := absurd ht List.not_mem_nil

theorem timelyStep_refused {w w' : ServerWorld} (hstep : TimelyStep w w') {roomId : RoomId}
    (h : ∃ t ∈ w.tasks, Refused t roomId) : ∃ t ∈ w'.tasks, Refused t roomId := by
  obtain ⟨t, ht, hrefused⟩ := h
  rcases step_cases hstep with ⟨q, rfl⟩ | ⟨i, u, r, c, next, hu, hrest, -, rfl⟩
  · exact ⟨t, List.mem_append_left _ ht, hrefused⟩
  · obtain ⟨j, hj⟩ := List.getElem?_of_mem ht
    by_cases hij : i = j
    · subst hij
      obtain rfl := Option.some.inj (hu.symm.trans hj)
      have hlt : i < w.tasks.length := (List.getElem?_eq_some_iff.mp hu).1
      exact ⟨_, List.mem_of_getElem? (List.getElem?_set_self hlt), hrefused.advance hrest⟩
    · exact ⟨t, List.mem_of_getElem? ((List.getElem?_set_ne hij).trans hj), hrefused⟩

theorem timelySteps_lasting {w w' : ServerWorld} {roomId : RoomId}
    (h : ∃ t ∈ w.tasks, Refused t roomId) (hsteps : TimelySteps w w') :
    Steps (Lasting roomId) Service.dispatch w w' := by
  have key : (∃ t ∈ w'.tasks, Refused t roomId) ∧ Steps (Lasting roomId) Service.dispatch w w' := by
    induction hsteps with
    | refl => exact ⟨h, .refl⟩
    | tail _ hstep ih =>
      obtain ⟨hrefused, hsteps⟩ := ih
      refine ⟨timelyStep_refused hstep hrefused, hsteps.tail ?_⟩
      obtain ⟨a, hadm, ha⟩ := hstep
      exact ⟨a, fun c r hnext => ⟨(hadm c r hnext).1, (hadm c r hnext).2 roomId hrefused⟩, ha⟩
  exact key.2

/-- The answer `room_expired` for the room, on a reading of its expiry. -/
def ExpiredFor (t : ServerTask) (roomId : RoomId) : Prop := Refused t roomId ∧ AnsweredExpired t

def SucceedsOn (t : ServerTask) (roomId : RoomId) : Prop :=
  ∃ fields, t.rest.outcome = some (.ok fields) ∧ Concerns t.request roomId fields

/-- What starts after a `room_expired` answer of a timely run does not succeed on the room. -/
theorem timely_expiry_final {clock : ℤ} {w₁ w₂ : ServerWorld}
    (h₁ : TimelySteps (initialWorld clock) w₁) (h₁₂ : TimelySteps w₁ w₂) :
    ∀ t ∈ w₁.tasks, ∀ roomId, ExpiredFor t roomId →
    ∀ i t', w₁.tasks.length ≤ i → w₂.tasks[i]? = some t' → ¬SucceedsOn t' roomId := by
  intro t ht roomId hexpired i t' hi ht' hsucceeds
  obtain ⟨expiry, hlapsed⟩ :=
    (timelySteps_onTime (initial_onTime clock) h₁).refused t ht roomId hexpired.1
  have hsteps := timelySteps_lasting ⟨t, ht, hexpired.1⟩ h₁₂
  have hsound : (lapse roomId expiry).SoundFrom w₁.tasks.length (NoSuccess roomId) w₂ :=
    Discipline.steps_soundFrom (fun q s hs => dispatch_lapsed roomId expiry q s hs)
      (fun _ _ => trivial)
      hlapsed hsteps
  obtain ⟨fields, hout, hconcerns⟩ := hsucceeds
  exact (hsound.tasks i t' hi ht').outcome hout fields rfl hconcerns

theorem refused_of_last {t : ServerTask} {roomId : RoomId} (hne : t.past ≠ [])
    (hfound : FoundExpired t.past.dropLast (t.past.getLast hne) roomId)
    (hanswer : AnsweredExpired t) :
    Refused t roomId :=
  ⟨_, _, [], (List.dropLast_append_getLast hne).symm, hfound, .inr ⟨rfl, hanswer⟩⟩

instance decidableTicking (s : Shared) (c : Call) (r : Reading) : Decidable (Ticking s c r) :=
  match c with
  | .nowMs => decidable_of_iff (s.clock ≤ r.wallMs) ⟨fun h _ => h, fun h => h rfl⟩
  | .monoNs | .bootId | .newPeerId | .newPeerToken | .newRoomId | .getNonce _ | .getRoom
    _ | .queryRoom _
  | .createRoom .. | .joinRoom .. | .registerCandidates .. | .releasePeer .. | .reclaimPeer ..
  | .confirmPair .. | .renewRoom .. | .renewItem .. => .isTrue fun h => nomatch h

def Call.renews : Call → Bool
  | .renewRoom .. => true
  | _ => false

def Unrenewed (s : Shared) (c : Call) (r : Reading) : Prop := Ticking s c r ∧ c.renews = false

instance decidableUnrenewed (s : Shared) (c : Call) (r : Reading) : Decidable (Unrenewed s c r) :=
  inferInstanceAs (Decidable (_ ∧ _))

theorem unrenewed_timely {w w' : ServerWorld} (h : Steps Unrenewed Service.dispatch w w') :
    TimelySteps w w' := by
  induction h with
  | refl => exact .refl
  | tail _ hstep ih =>
    obtain ⟨a, hadm, ha⟩ := hstep
    apply ih.tail
    refine ⟨a, ?_, ha⟩
    intro c r hnext
    obtain ⟨htick, hnone⟩ := hadm c r hnext
    refine ⟨htick, ?_⟩
    rintro roomId - now expires rfl
    cases hnone

/-- A room of which nothing is heard until a poll finds it expired. -/
def expiredSchedule : List (Action store Service.Request) :=
  sampleCalls sampleCreate 0 6 0 0 ++ sampleCalls samplePeers 1 2 120000 0

def expiredWorld : ServerWorld :=
  (play Unrenewed Service.dispatch expiredSchedule (initialWorld 0)).get (by decide +kernel)

/-- A player comes too late. -/
def tooLateWorld : ServerWorld :=
  (play Unrenewed Service.dispatch (sampleCalls sampleJoin 2 3 120001 1) expiredWorld).get
    (by decide +kernel)

/-- The poll that finds the room expired. -/
def expiredPoll : ServerTask := expiredWorld.tasks.get ⟨1, by decide +kernel⟩

theorem expiredPoll_past : expiredPoll.past ≠ [] := List.ne_nil_of_length_pos (by decide +kernel)

theorem expiredPoll_expired : ExpiredFor expiredPoll sampleRoom := by
  have hanswer : AnsweredExpired expiredPoll := ⟨roomExpired, by decide +kernel, rfl⟩
  refine ⟨refused_of_last expiredPoll_past ?_ hanswer, hanswer⟩
  refine ⟨120000, ⟨0, 120000, 1, 86520⟩, ?_, ?_, ?_, le_refl _⟩
  · decide +kernel
  · decide +kernel
  · decide +kernel

theorem expired_room_is_final : ExpiredFor expiredPoll sampleRoom ∧
    ∃ join, tooLateWorld.tasks[2]? = some join ∧ ¬SucceedsOn join sampleRoom := by
  have hthere : 2 < tooLateWorld.tasks.length := by decide +kernel
  have h₁ : TimelySteps (initialWorld 0) expiredWorld :=
    unrenewed_timely (steps_of_play (Option.some_get _).symm)
  have h₂ : TimelySteps expiredWorld tooLateWorld :=
    unrenewed_timely (steps_of_play (Option.some_get _).symm)
  have hlate : expiredWorld.tasks.length ≤ 2 := by decide +kernel
  have hjoin := List.getElem?_eq_getElem hthere
  refine ⟨expiredPoll_expired, _, hjoin, ?_⟩
  exact timely_expiry_final h₁ h₂ expiredPoll
    (List.get_mem _ _) sampleRoom expiredPoll_expired 2 _ hlate hjoin

/-! ## A report that began in time -/

/-- A report begins a millisecond before the room expires, and a poll finds the room expired. -/
def lateSchedule : List (Action store Service.Request) :=
  sampleCalls sampleCreate 0 6 0 0 ++ sampleCalls (sampleReport [] []) 1 2 119999 0 ++
    sampleCalls samplePeers 2 2 120000 0

/-- The report renews the room, and a player joins it. -/
def reviveSchedule : List (Action store Service.Request) :=
  .advance 1 (sampleReading 120000 0) :: sampleCalls sampleJoin 3 6 120001 1

def lateWorld : ServerWorld :=
  (play Ticking Service.dispatch lateSchedule (initialWorld 0)).get (by decide +kernel)

def revivedWorld : ServerWorld :=
  (play Ticking Service.dispatch reviveSchedule lateWorld).get (by decide +kernel)

/-- The poll that found the room expired. -/
def refusedPoll : ServerTask := lateWorld.tasks.get ⟨2, by decide +kernel⟩

/-- The join that came after it. -/
def lateJoin : ServerTask := revivedWorld.tasks.get ⟨3, by decide +kernel⟩

theorem refusedPoll_past : refusedPoll.past ≠ [] := List.ne_nil_of_length_pos (by decide +kernel)

theorem refusedPoll_expired : ExpiredFor refusedPoll sampleRoom := by
  have hanswer : AnsweredExpired refusedPoll := ⟨roomExpired, by decide +kernel, rfl⟩
  refine ⟨refused_of_last refusedPoll_past ?_ hanswer, hanswer⟩
  refine ⟨120000, ⟨0, 120000, 1, 86520⟩, ?_, ?_, ?_, le_refl _⟩
  · decide +kernel
  · decide +kernel
  · decide +kernel

theorem lateJoin_succeeds : SucceedsOn lateJoin sampleRoom := by
  refine ⟨.issued
    ⟨sampleRoom, 2, newPeerToken fun _ => ⟨1, by decide⟩, "10.100.0.2".toList, 120⟩, ?_, ?_⟩
  · decide +kernel
  · exact .place (.inr (by decide +kernel)) rfl

/-- Once a request was answered `room_expired`, none that starts later succeeds on the room. -/
def ExpiryFinal (steps : ServerWorld → ServerWorld → Prop) : Prop :=
  ∀ clock w₁ w₂, steps (initialWorld clock) w₁ → steps w₁ w₂ →
    ∀ t ∈ w₁.tasks, ∀ roomId, ExpiredFor t roomId →
    ∀ i t', w₁.tasks.length ≤ i → w₂.tasks[i]? = some t' → ¬SucceedsOn t' roomId

theorem expiry_not_final : ¬ExpiryFinal (Steps Ticking Service.dispatch) := by
  intro h
  have h₁ : Steps Ticking Service.dispatch (initialWorld 0) lateWorld :=
    steps_of_play (Option.some_get _).symm
  have h₂ : Steps Ticking Service.dispatch lateWorld revivedWorld :=
    steps_of_play (Option.some_get _).symm
  have hlate : lateWorld.tasks.length ≤ 3 := by decide +kernel
  exact h 0 lateWorld revivedWorld h₁ h₂ refusedPoll
    (List.get_mem _ _) sampleRoom refusedPoll_expired 3 lateJoin
    hlate (List.getElem?_eq_getElem _) lateJoin_succeeds

end Sangtachi.Control
