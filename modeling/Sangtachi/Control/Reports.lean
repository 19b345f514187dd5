import Sangtachi.Control.Joins

/-! # The requests of a peer with a place

`register_candidate`, `get_peers` and `host_report` under any interleaving: each call is
licensed, and a success answer has the shape that a client accepts. -/
namespace Sangtachi.Control

open AtomicPrograms UniqueIndex

/-! ## Candidates -/

theorem checkShapeItem_ok {item : Json} {octets : Octets} {c : Candidate}
    (h : checkShapeItem item = .ok (octets, c)) :
    parseIpv4 c.ip = some octets ∧ c.port ≤ 65535 := by
  unfold checkShapeItem at h
  repeat' (split at h <;> try contradiction)
  all_goals
    obtain ⟨rfl, rfl⟩ := Prod.mk.inj (Except.ok.inj h)
    refine ⟨by assumption, ?_⟩
    dsimp only
    omega

theorem mapM_ok_length {α β ε : Type} {f : α → Except ε β} {xs : List α} {ys : List β}
    (h : xs.mapM f = .ok ys) : ys.length = xs.length ∧ ∀ y ∈ ys, ∃ x ∈ xs, f x = .ok y := by
  induction xs generalizing ys with
  | nil =>
    obtain rfl : [] = ys := by simpa [pure, Except.pure] using h
    simp
  | cons x xs ih =>
    rw [List.mapM_cons] at h
    cases hx : f x with
    | error e => simp [hx, bind, Except.bind] at h
    | ok y =>
      cases hxs : xs.mapM f with
      | error e => simp [hx, hxs, bind, Except.bind] at h
      | ok ys' =>
        obtain rfl : y :: ys' = ys := by
          simpa [hx, hxs, bind, Except.bind, pure, Except.pure] using h
        obtain ⟨hlen, hmem⟩ := ih hxs
        refine ⟨by simp [hlen], ?_⟩
        intro z hz
        rcases List.mem_cons.mp hz with rfl | hz
        · exact ⟨x, List.mem_cons_self, hx⟩
        · obtain ⟨x', hx', hf⟩ := hmem z hz
          exact ⟨x', List.mem_cons_of_mem _ hx', hf⟩

/-- The stored candidates come from the list, pass the sanitation, and have endpoints that are
new and pairwise different. -/
theorem sanitizeLoop_spec (checked : List (Octets × Candidate)) (seen : List (Octets × ℕ))
    (hparsed : ∀ x ∈ checked, parseIpv4 x.2.ip = some x.1) :
    (sanitizeLoop checked seen).1.length + (sanitizeLoop checked seen).2 ≤ checked.length ∧
    (∀ c ∈ (sanitizeLoop checked seen).1, ∃ octets, (octets, c) ∈ checked ∧
      sanitationReject octets c.port = false ∧ (octets, c.port) ∉ seen) ∧
    ((sanitizeLoop checked seen).1.map fun c => (parseIpv4 c.ip, c.port)).Nodup := by
  induction checked generalizing seen with
  | nil => simp [sanitizeLoop]
  | cons head rest ih =>
    obtain ⟨octets, c⟩ := head
    have hrest : ∀ x ∈ rest, parseIpv4 x.2.ip = some x.1 :=
      fun x hx => hparsed x (List.mem_cons_of_mem _ hx)
    have hc : parseIpv4 c.ip = some octets := hparsed _ List.mem_cons_self
    by_cases hreject : sanitationReject octets c.port = true
    · obtain ⟨hlen, hmem, hnodup⟩ := ih seen hrest
      simp only [sanitizeLoop, if_pos hreject]
      refine ⟨by simp only [List.length_cons]; omega, ?_, hnodup⟩
      intro c' hc'
      obtain ⟨octets', hin, hr⟩ := hmem c' hc'
      exact ⟨octets', List.mem_cons_of_mem _ hin, hr⟩
    · by_cases hseen : (octets, c.port) ∈ seen
      · obtain ⟨hlen, hmem, hnodup⟩ := ih seen hrest
        simp only [sanitizeLoop, if_neg hreject, if_pos hseen]
        refine ⟨by simp only [List.length_cons]; omega, ?_, hnodup⟩
        intro c' hc'
        obtain ⟨octets', hin, hr⟩ := hmem c' hc'
        exact ⟨octets', List.mem_cons_of_mem _ hin, hr⟩
      · obtain ⟨hlen, hmem, hnodup⟩ := ih ((octets, c.port) :: seen) hrest
        simp only [sanitizeLoop, if_neg hreject, if_neg hseen]
        refine ⟨by simp only [List.length_cons]; omega, ?_, ?_⟩
        · intro c' hc'
          rcases List.mem_cons.mp hc' with rfl | hc'
          · exact ⟨octets, List.mem_cons_self, by simpa using hreject, hseen⟩
          · obtain ⟨octets', hin, hr, hnot⟩ := hmem c' hc'
            exact ⟨octets', List.mem_cons_of_mem _ hin, hr,
              fun h => hnot (List.mem_cons_of_mem _ h)⟩
        · rw [List.map_cons, List.nodup_cons]
          refine ⟨?_, hnodup⟩
          intro hin
          obtain ⟨c', hc', he⟩ := List.mem_map.mp hin
          obtain ⟨octets', hin', -, hnot⟩ := hmem c' hc'
          have hp' : parseIpv4 c'.ip = some octets' := hrest _ hin'
          rw [hp', hc] at he
          obtain ⟨ho, hport⟩ := Prod.mk.inj he
          obtain rfl := Option.some.inj ho
          rw [hport] at hnot
          exact hnot List.mem_cons_self

theorem sanitizeCandidates_ok {raw : Option Json} {stored : List Candidate} {rejected : ℕ}
    (h : sanitizeCandidates raw = .ok (stored, rejected)) :
    CleanCandidates stored ∧ stored.length + rejected ≤ MAX_CANDIDATES := by
  unfold sanitizeCandidates at h
  cases hshape : checkShape raw with
  | error e => simp [hshape, bind, Except.bind] at h
  | ok checked =>
    have hchecked : checked.length ≤ MAX_CANDIDATES ∧
        ∀ x ∈ checked, parseIpv4 x.2.ip = some x.1 ∧ x.2.port ≤ 65535 := by
      unfold checkShape at hshape
      split at hshape
      case h_1 items =>
        split at hshape
        case isTrue => cases hshape
        case isFalse hlen =>
          obtain ⟨hl, hmem⟩ := mapM_ok_length hshape
          refine ⟨by omega, ?_⟩
          rintro ⟨octets, c⟩ hx
          obtain ⟨item, -, hitem⟩ := hmem _ hx
          exact checkShapeItem_ok hitem
      case h_2 => cases hshape
    obtain ⟨hlen, hmem, hnodup⟩ := sanitizeLoop_spec checked [] fun x hx => (hchecked.2 x hx).1
    simp only [hshape, bind, Except.bind] at h
    split at h
    case isTrue => cases h
    case isFalse hne =>
      obtain ⟨rfl, rfl⟩ := Prod.mk.inj (Except.ok.inj h)
      refine ⟨⟨hne, by omega, ?_, hnodup⟩, by omega⟩
      intro c hc
      obtain ⟨octets, hin, hr, -⟩ := hmem c hc
      exact ⟨(hchecked.2 _ hin).2, octets, (hchecked.2 _ hin).1, hr⟩

/-! ## Elements -/

/-- What each list of elements satisfies: no caller, no duplicates, and clean values. -/
structure GoodElements (caller : PeerId) (list : List PeerElement) : Prop where
  short : list.length ≤ MAX_PEERS - 1
  nodup : (list.map PeerElement.peerId).Nodup
  others : ∀ e ∈ list, e.peerId.val ≠ 0 ∧ e.peerId ≠ caller ∧
    e.virtualIp ∈ HOST_VIRTUAL_IP :: PARTICIPANT_POOL
  ready : ∀ e ∈ list, ∀ f, e.whenReady = some f → f.punchDelayMs = PUNCH_DELAY_MS ∧
    0 ≤ f.elapsedSinceReadyMs ∧ (f.candidates = [] ∨ CleanCandidates f.candidates)

theorem elapsedSinceReadyMs_nonneg (pair : PairItem) (boot : Text) (mono wall : ℤ) :
    0 ≤ elapsedSinceReadyMs pair boot mono wall := by
  unfold elapsedSinceReadyMs
  split <;> exact le_max_left ..

theorem view_pair_delay {s : Shared} (hc : Consistent s) {roomId : RoomId} {key : PairKey}
    {pair : PairItem} (h : (queryRoom s.table roomId).pair key = some pair) :
    pair.punchDelayMs = PUNCH_DELAY_MS := by
  rw [view_pair] at h
  exact (hc.paired roomId key pair h).1

theorem goodElements {s : Shared} (hc : Consistent s) {roomId : RoomId} {caller : PeerId}
    {others : List PeerItem}
    (hsub : ∀ p ∈ others, p ∈ (queryRoom s.table roomId).peers ∧ p.peerId ≠ caller)
    (hnodup : (others.map PeerItem.peerId).Nodup) (hshort : others.length ≤ MAX_PEERS - 1)
    (boot : Text) (mono wall : ℤ) :
    GoodElements caller (others.map fun peer =>
      peerElement peer ((queryRoom s.table roomId).pair (pairSk caller peer.peerId)) fun pair =>
        elapsedSinceReadyMs pair boot mono wall) where
  short := by simpa using hshort
  nodup := by
    rw [List.map_map]
    exact hnodup
  others e he := by
    obtain ⟨p, hp, rfl⟩ := List.mem_map.mp he
    obtain ⟨hmem, hne⟩ := hsub p hp
    obtain ⟨id, hid⟩ := mem_view_peers.mp hmem
    exact ⟨hc.nonzero _ p hid, hne, hc.address _ p hid⟩
  ready e he f hf := by
    obtain ⟨p, hp, rfl⟩ := List.mem_map.mp he
    obtain ⟨hmem, -⟩ := hsub p hp
    obtain ⟨id, hid⟩ := mem_view_peers.mp hmem
    obtain ⟨pair, hpair, rfl⟩ := Option.map_eq_some_iff.mp hf
    refine ⟨view_pair_delay hc hpair, elapsedSinceReadyMs_nonneg pair boot mono wall, ?_⟩
    unfold PeerItem.candidateList
    cases hl : p.candidates with
    | none => exact .inl rfl
    | some list => exact .inr (hc.clean _ p list hid hl)

theorem others_short {s : Shared} (hc : Consistent s) {roomId : RoomId} {caller : PeerId}
    (hin : (s.table.peerAt (roomId, caller)).isSome) :
    ((queryRoom s.table roomId).peers.filter fun peer => peer.peerId ≠ caller).length ≤
      MAX_PEERS - 1 := by
  obtain ⟨p, hp⟩ := Option.isSome_iff_exists.mp hin
  have hlt : ((queryRoom s.table roomId).peers.filter fun peer => peer.peerId ≠ caller).length <
      (queryRoom s.table roomId).peers.length := by
    refine List.length_filter_lt_length_iff_exists.mpr ⟨p, mem_view_peers.mpr ⟨caller, hp⟩, ?_⟩
    simpa using hc.keyed _ p hp
  have hle := peers_length_le hc roomId
  omega

def Fits (caller : PeerId) : Fields → Prop
  | .issued i =>
    i.peerId.val ≠ 0 ∧ i.virtualIp ∈ HOST_VIRTUAL_IP :: PARTICIPANT_POOL ∧ 0 ≤ i.expiresInS
  | .registered accepted rejected => 1 ≤ accepted ∧ accepted + rejected ≤ MAX_CANDIDATES
  | .peers ready list => ready = list.any PeerElement.ready ∧ GoodElements caller list
  | .hostReport expires released confirmed list => 0 ≤ expires ∧ released.length ≤ MAX_PEERS - 1 ∧
    confirmed.length ≤ MAX_PEERS - 1 ∧ (∀ id ∈ released ++ confirmed, id.val ≠ 0) ∧
      GoodElements caller list

/-- The last calls before an answer that lists peers: the read of the room and the clocks. -/
structure FinalRead (roomId : RoomId) (past pre : Past) (q b m n : Event store) : Prop where
  split : past = pre ++ [q, b, m, n]
  read : q.call = .queryRoom roomId
  boot : b.call = .bootId
  mono : m.call = .monoNs
  wall : n.call = .nowMs

/-- The element of a peer, computed from what the last calls read. -/
def elementOf (roomId : RoomId) (caller : PeerId) (q b m n : Event store) (peer : PeerItem) :
    PeerElement :=
  peerElement peer (q.before.table.pairAt (roomId, pairSk caller peer.peerId)) fun pair =>
    elapsedSinceReadyMs pair b.reading.bootId m.reading.monoNs n.reading.wallMs

/-- The list shows the other peers to the host, and the host to a player. -/
structure Listed (roomId : RoomId) (caller : PeerId) (q b m n : Event store)
    (list : List PeerElement) : Prop where
  consistent : Consistent q.before
  shown : ∃ others, list = others.map (elementOf roomId caller q b m n) ∧
    ∃ room, q.before.table.rooms.lookup roomId = some room ∧
      (caller = room.hostPeerId →
        others = (queryRoom q.before.table roomId).peers.filter fun peer => peer.peerId ≠ caller) ∧
      (caller ≠ room.hostPeerId →
        ∃ host, q.before.table.peerAt (roomId, room.hostPeerId) = some host ∧ others = [host])

def Removes (roomId : RoomId) (id : PeerId) (e : Event store) : Prop :=
  (e.before.table.peerAt (roomId, id)).isSome ∧ Gone e.after roomId id

def Pairs (roomId : RoomId) (host id : PeerId) (e : Event store) : Prop :=
  HostOf e.before roomId host ∧ e.before.table.hasCandidates roomId id = true ∧
    e.before.table.pairAt (roomId, pairSk host id) = none ∧
    (e.after.table.pairAt (roomId, pairSk host id)).isSome

/-- The two arrays of a report, each id once and each by a call of the request. -/
structure Reported (roomId : RoomId) (host : PeerId) (departed : List PeerId) (pre : Past)
    (released confirmed : List PeerId) : Prop where
  releasedOnce : released.Nodup
  removed : ∀ id ∈ released, ∃ e ∈ pre, Removes roomId id e
  confirmedOnce : confirmed.Nodup
  paired : ∀ id ∈ confirmed, id ∉ departed ∧ ∃ e ∈ pre, Pairs roomId host id e

def Told (body : List (Text × Json)) (caller : PeerId) (past : Past) (fields : Fields) : Prop :=
  Fits caller fields ∧
  match fields with
  | .issued _ => True
  | .registered _ _ => True
  | .peers _ list =>
    ∃ roomId pre q b m n, normalizeRoomId (field body "room_id".toList) = .ok roomId ∧
    uint32 body "peer_id" peerId_short = .ok caller ∧ FinalRead roomId past pre q b m n ∧
      Listed roomId caller q b m n list
  | .hostReport _ released confirmed list => ∃ roomId departed pre q b m n,
    normalizeRoomId (field body "room_id".toList) = .ok roomId ∧
      uint32 body "peer_id" peerId_short = .ok caller ∧
    peerIdList body "departed" departed_item_short departed_kind_short departed_size_short =
      .ok departed ∧
    FinalRead roomId past pre q b m n ∧ HostOf q.before roomId caller ∧
      Listed roomId caller q b m n list ∧
    Reported roomId caller departed pre released confirmed

/-- The answer to a caller: any error, or fields that tell what is so. -/
def FitAnswer (body : List (Text × Json)) (caller : PeerId) (past : Past) (_ : Shared) :
    Except OpError Fields → Prop
  | .ok fields => Told body caller past fields
  | .error _ => True

theorem authenticate_ok {view : RoomView} {id : PeerId} {token : Hex32} {p : PeerItem}
    (h : Service.authenticate view id token = .ok p) :
    view.peer id = some p ∧ p.peerToken = token := by
  unfold Service.authenticate Service.knownPeer at h
  cases hp : view.peer id with
  | none =>
    by_cases hin : SortKey.peer id ∈ view.sks <;> simp [hp, hin, bind, Except.bind] at h
  | some q =>
    by_cases ht : q.peerToken = token
    · obtain rfl : q = p := by simpa [hp, ht, bind, Except.bind] using h
      exact ⟨rfl, ht⟩
    · simp [hp, ht, bind, Except.bind] at h

variable {α : Type} {Q : Past → Shared → Except OpError α → Prop} {past : Past} {s : Shared}

theorem elements_safe {view : RoomView} {caller : PeerId} {others : List PeerItem}
    {f : List PeerElement → Handler α}
    (h : ∀ b m n s', b.call = .bootId → m.call = .monoNs → n.call = .nowMs →
      rooms.Safe Q (f (others.map fun peer =>
        peerElement peer (view.pair (pairSk caller peer.peerId)) fun pair =>
          elapsedSinceReadyMs pair b.reading.bootId m.reading.monoNs n.reading.wallMs))
            (past ++ [b, m, n]) s') :
    rooms.Safe Q (Service.elements view caller others >>= f) past s := by
  refine safe_read readOnly_bootId ?_
  intro before r _ _
  refine safe_read readOnly_monoNs ?_
  intro before' r' _ _
  refine safe_nowMs ?_
  intro before'' r'' _ _
  have hlist := h ⟨before, r, .bootId⟩ ⟨before', r', .monoNs⟩ ⟨before'', r'', .nowMs⟩
    { before'' with clock := r''.wallMs } rfl rfl rfl
  simpa only [List.append_assoc, List.cons_append, List.nil_append] using hlist

/-! ## The handlers -/

theorem registerCandidate_safe (body : List (Text × Json)) (caller : PeerId) :
    rooms.Safe (FitAnswer body caller) (Service.registerCandidate body) past s := by
  refine safe_ofExcept (fun _ _ => trivial) fun peerId _ => ?_
  refine safe_ofExcept (fun _ _ => trivial) fun token _ => ?_
  refine safe_ofExcept (fun _ _ => trivial) ?_
  rintro ⟨stored, rejected⟩ hclean
  obtain ⟨hclean, hsum⟩ := sanitizeCandidates_ok hclean
  refine safe_ofExcept (fun _ _ => trivial) fun roomId _ => ?_
  refine safe_nowMs fun before r _ _ => ?_
  refine safe_read (readOnly_queryRoom roomId) fun before r _ _ => ?_
  refine safe_ofExcept (fun _ _ => trivial) fun room _ => ?_
  refine safe_ofExcept (fun _ _ => trivial) fun peer _ => ?_
  refine safe_registerCandidates hclean fun before r after registered _ _ _ _ => ?_
  cases registered with
  | false => exact trivial
  | true => exact ⟨⟨List.length_pos_iff.mpr hclean.nonempty, hsum⟩, trivial⟩

theorem checkRoom_ok {room : Option RoomItem} {now : ℤ} {r : RoomItem}
    (h : checkRoom room now = .ok r) :
    room = some r := by
  rcases checkRoom_cases room now with ⟨r', hr, -, h'⟩ | ⟨r', -, -, h'⟩ | ⟨-, h'⟩
  · rw [h'] at h
    exact Except.ok.inj h ▸ hr
  · rw [h'] at h
    cases h
  · rw [h'] at h
    cases h

theorem elementOf_eq (roomId : RoomId) (caller : PeerId) (q b m n : Event store)
    (others : List PeerItem) :
    (others.map fun peer =>
      peerElement peer
        ((queryRoom q.before.table roomId).pair (pairSk caller peer.peerId)) fun pair =>
        elapsedSinceReadyMs pair b.reading.bootId m.reading.monoNs n.reading.wallMs) =
      others.map (elementOf roomId caller q b m n) := by
  simp only [view_pair]
  rfl

theorem getPeers_safe {body : List (Text × Json)} {caller : PeerId}
    (hcaller : ∀ id, uint32 body "peer_id" = .ok id → id = caller) :
    rooms.Safe (FitAnswer body caller) (Service.getPeers body) past s := by
  refine safe_ofExcept (fun _ _ => trivial) fun peerId hid => ?_
  obtain rfl := hcaller peerId hid
  refine safe_ofExcept (fun _ _ => trivial) fun token _ => ?_
  refine safe_ofExcept (fun _ _ => trivial) fun roomId hroomId => ?_
  refine safe_nowMs fun before₀ r₀ _ _ => ?_
  refine safe_read (readOnly_queryRoom roomId) fun before r _ hc => ?_
  refine safe_ofExcept (fun _ _ => trivial) fun room hroom => ?_
  have hroom : before.table.rooms.lookup roomId = some room := checkRoom_ok hroom
  refine safe_ofExcept (fun _ _ => trivial) fun peer hauth => ?_
  have hin : (before.table.peerAt (roomId, peerId)).isSome :=
    Option.isSome_iff_exists.mpr ⟨peer, (view_peer_iff hc).mp (authenticate_ok hauth).1⟩
  refine safe_ofExcept (fun _ _ => trivial) fun others hothers => ?_
  have hgood : (∀ p ∈ others, p ∈ (queryRoom before.table roomId).peers ∧ p.peerId ≠ peerId) ∧
      (others.map PeerItem.peerId).Nodup ∧ others.length ≤ MAX_PEERS - 1 ∧
      (peerId = room.hostPeerId →
        others = (queryRoom before.table roomId).peers.filter fun peer => peer.peerId ≠ peerId) ∧
      (peerId ≠ room.hostPeerId →
        ∃ host, before.table.peerAt (roomId, room.hostPeerId) = some host ∧ others = [host]) := by
    by_cases hhost : peerId = room.hostPeerId
    · rw [if_pos hhost] at hothers
      obtain rfl := Except.ok.inj hothers
      refine ⟨fun p hp => by
        simpa using hp, ?_, others_short hc hin, fun _ => rfl, fun h => absurd hhost h⟩
      exact (view_peers_nodup hc roomId).sublist (List.filter_sublist.map _)
    · rw [if_neg hhost] at hothers
      cases hp : (queryRoom before.table roomId).peer room.hostPeerId with
      | none => simp [hp] at hothers
      | some host =>
        obtain rfl : [host] = others := by simpa [hp] using hothers
        have hat := (view_peer_iff hc).mp hp
        have hkey : host.peerId = room.hostPeerId := hc.keyed _ host hat
        refine ⟨?_, by
          simp, by simp [MAX_PEERS], fun h => absurd h hhost, fun _ => ⟨host, hat, rfl⟩⟩
        intro p hp
        obtain rfl := List.mem_singleton.mp hp
        exact ⟨mem_view_peers.mpr ⟨_, hat⟩, fun h => hhost (h.symm.trans hkey)⟩
  obtain ⟨hsub, hnodup, hshort, hforHost, hforPlayer⟩ := hgood
  refine elements_safe fun b m n s' hb hm hn => ?_
  refine ⟨⟨rfl, goodElements hc hsub hnodup hshort _ _ _⟩, roomId, past ++ [⟨before₀, r₀, .nowMs⟩],
    ⟨before, r, .queryRoom roomId⟩, b, m, n, hroomId, hid, ⟨by simp, rfl, hb, hm, hn⟩,
    hc, others, ?_,
    room, hroom, hforHost, hforPlayer⟩
  exact elementOf_eq roomId peerId ⟨before, r, .queryRoom roomId⟩ b m n others

/-- What the reclaiming loops have taken away: peers of the view other than the host, each once
and for good, and each by a call of the request. -/
structure Taken (past : Past) (s : Shared) (roomId : RoomId) (view : RoomView) (host : PeerId)
    (ids : List PeerId) : Prop where
  nodup : ids.Nodup
  gone : ∀ id ∈ ids, Gone s roomId id ∧ id ≠ host ∧ ∃ p ∈ view.peers, p.peerId = id
  removed : ∀ id ∈ ids, ∃ e ∈ past, Removes roomId id e

theorem Taken.mono {past past' : Past} {s s' : Shared} {roomId : RoomId} {view : RoomView}
    {host : PeerId} {ids : List PeerId} (hpre : past <+: past') (hg : Grows s s')
    (h : Taken past s roomId view host ids) :
    Taken past' s' roomId view host ids where
  nodup := h.nodup
  gone id hid := ⟨(h.gone id hid).1.mono hg, (h.gone id hid).2⟩
  removed id hid := by
    obtain ⟨e, he, hremoves⟩ := h.removed id hid
    exact ⟨e, hpre.subset he, hremoves⟩

theorem Taken.snoc {past : Past} {s : Shared} {e : Event store} {roomId : RoomId} {view : RoomView}
    {host id : PeerId} {ids : List PeerId} (h : Taken past s roomId view host ids)
    (hg : Grows s e.before) (hg' : Grows e.before e.after) (hremoves : Removes roomId id e)
    (hne : id ≠ host)
    (hview : ∃ p ∈ view.peers, p.peerId = id) :
    Taken (past ++ [e]) e.after roomId view host (ids ++ [id]) where
  nodup := by
    refine List.nodup_append.mpr ⟨h.nodup, List.nodup_singleton _, ?_⟩
    intro a ha b hb hab
    obtain rfl := List.mem_singleton.mp hb
    subst hab
    obtain ⟨p, hp, rfl, hnone⟩ := (h.gone a ha).1.mono hg
    have hfound := hremoves.1
    rw [hnone] at hfound
    cases hfound
  gone a ha := by
    rcases List.mem_append.mp ha with ha | ha
    · exact (h.mono (List.prefix_append past [e]) (hg.trans hg')).gone a ha
    · obtain rfl := List.mem_singleton.mp ha
      exact ⟨hremoves.2, hne, hview⟩
  removed a ha := by
    rcases List.mem_append.mp ha with ha | ha
    · obtain ⟨e', he', hremoves'⟩ := h.removed a ha
      exact ⟨e', List.mem_append_left _ he', hremoves'⟩
    · obtain rfl := List.mem_singleton.mp ha
      exact ⟨e, List.mem_append_right _ (List.mem_singleton_self e), hremoves⟩

theorem departedTarget_some {view : RoomView} {target : PeerId} {vip : Text} {nonce : Option Hex32}
    (h : Service.departedTarget view target = .ok (some (vip, nonce))) :
    ∃ p ∈ view.peers, p.peerId = target ∧ vip = p.virtualIp ∧ nonce = some p.clientNonce := by
  unfold Service.departedTarget RoomView.peer at h
  split at h
  case h_1 p hp =>
    obtain ⟨rfl, rfl⟩ := Prod.mk.inj (Option.some.inj (Except.ok.inj h))
    exact ⟨p, List.mem_of_find?_eq_some hp, by simpa using List.find?_some hp, rfl, rfl⟩
  case h_2 => split at h <;> cases h

theorem releaseDeparted_safe {roomId : RoomId} {view : RoomView} {host : PeerId}
    {f : Service.Removed → Handler α} (herror : ∀ e past' s', Q past' s' (.error e))
    (h : ∀ past' s' removed, past <+: past' → Grows s s' → Consistent s' →
      Taken past' s' roomId view host removed.1 → rooms.Safe Q (f removed) past' s')
    (targets : List PeerId) {removed : Service.Removed} (hc : Consistent s)
    (hseen : Seen s roomId view)
    (hhost : HostOf s roomId host) (htaken : Taken past s roomId view host removed.1) :
    rooms.Safe Q (Service.releaseDeparted roomId view host targets removed >>= f) past s := by
  induction targets generalizing past s removed with
  | nil => exact h past s removed (List.prefix_refl _) (Grows.refl s) hc htaken
  | cons target rest ih =>
    unfold Service.releaseDeparted
    by_cases htarget : target = host
    · rw [if_pos htarget]
      exact ih h hc hseen hhost htaken
    rw [if_neg htarget]
    cases hfound : Service.departedTarget view target with
    | error e => exact herror e _ _
    | ok found =>
      cases found with
      | none => exact ih h hc hseen hhost htaken
      | some found =>
        obtain ⟨vip, nonce⟩ := found
        obtain ⟨p, hp, rfl, rfl, rfl⟩ := departedTarget_some hfound
        have hlic : Licensed s (.releasePeer roomId p.peerId p.virtualIp host (some p.clientNonce)
            (nameKeys view p.peerId)) := ⟨hhost, htarget, _, rfl, hseen.named p hp⟩
        simp only [Prog.ofExcept, Prog.done_bind, Prog.bind_assoc]
        refine safe_releasePeer hlic (fun before r after gone hg hc' hg' hc'' hgone hafter => ?_)
          herror
        have hg'' := hg.trans hg'
        have hpre := List.prefix_append past
          [⟨before, r, .releasePeer roomId p.peerId p.virtualIp host (some p.clientNonce)
            (nameKeys view p.peerId)⟩]
        have hnext : ∀ past' s' removed, _ <+: past' → Grows after s' → Consistent s' →
            Taken past' s' roomId view host removed.1 → rooms.Safe Q (f removed) past' s' :=
          fun past' s' removed hpre' hgrow =>
            h past' s' removed (hpre.trans hpre') (hg''.trans hgrow)
        cases gone with
        | false => exact ih hnext hc'' (hseen.mono hg'') (hhost.mono hg'') (htaken.mono hpre hg'')
        | true =>
          subst hafter
          exact ih hnext hc'' (hseen.mono hg'') (hhost.mono hg'')
            (htaken.snoc hg hg' (hgone rfl) htarget ⟨p, hp, rfl⟩)

theorem reclaim_safe {roomId : RoomId} {view : RoomView} {host : PeerId} {now : ℤ}
    {skip : List PeerId} {f : Service.Removed → Handler α}
    (herror : ∀ e past' s', Q past' s' (.error e))
    (h : ∀ past' s' removed, past <+: past' → Grows s s' → Consistent s' →
      Taken past' s' roomId view host removed.1 → rooms.Safe Q (f removed) past' s')
    (peers : List PeerItem) (hpeers : ∀ p ∈ peers, p ∈ view.peers) {removed : Service.Removed}
    (hc : Consistent s) (hseen : Seen s roomId view) (hhost : HostOf s roomId host)
    (htaken : Taken past s roomId view host removed.1) :
    rooms.Safe Q (Service.reclaim roomId host now skip view peers removed >>= f) past s := by
  induction peers generalizing past s removed with
  | nil => exact h past s removed (List.prefix_refl _) (Grows.refl s) hc htaken
  | cons p rest ih =>
    have hrest : ∀ q ∈ rest, q ∈ view.peers := fun q hq => hpeers q (List.mem_cons_of_mem _ hq)
    have hp := hpeers p List.mem_cons_self
    unfold Service.reclaim
    by_cases hskip : p.peerId ∈ skip
    · rw [if_pos hskip]
      exact ih h hrest hc hseen hhost htaken
    rw [if_neg hskip]
    cases hverdict : reclaimVerdict p host now with
    | keep => exact ih h hrest hc hseen hhost htaken
    | reclaim =>
      have hne : p.peerId ≠ host := by
        intro he
        simp [reclaimVerdict, he] at hverdict
      have hlic : Licensed s (.reclaimPeer roomId p.peerId p.virtualIp p.clientNonce now
          (nameKeys view p.peerId)) := ⟨⟨host, hhost, hne⟩, hseen.named p hp⟩
      simp only [Prog.bind_assoc]
      refine safe_reclaimPeer hlic (fun before r after gone hg hc' hg' hc'' hgone hafter => ?_)
        herror
      have hg'' := hg.trans hg'
      have hpre := List.prefix_append past
        [⟨before, r,
          .reclaimPeer roomId p.peerId p.virtualIp p.clientNonce now (nameKeys view p.peerId)⟩]
      have hnext : ∀ past' s' removed, _ <+: past' → Grows after s' → Consistent s' →
          Taken past' s' roomId view host removed.1 → rooms.Safe Q (f removed) past' s' :=
        fun past' s' removed hpre' hgrow => h past' s' removed (hpre.trans hpre') (hg''.trans hgrow)
      cases gone with
      | false =>
        exact ih hnext hrest hc'' (hseen.mono hg'') (hhost.mono hg'') (htaken.mono hpre hg'')
      | true =>
        subst hafter
        exact ih hnext hrest hc'' (hseen.mono hg'') (hhost.mono hg'')
          (htaken.snoc hg hg' (hgone rfl) hne ⟨p, hp, rfl⟩)

/-- What the confirming loop has put: pairs that stay until their peer goes, each by a call of the
request and for a target that it does not skip. -/
structure Confirmed (past : Past) (s : Shared) (roomId : RoomId) (view : RoomView) (host : PeerId)
    (skip ids : List PeerId) : Prop where
  nodup : ids.Nodup
  stays : ∀ id ∈ ids, id ≠ host ∧
    ((s.table.pairAt (roomId, pairSk host id)).isSome ∨ Gone s roomId id)
  asked : ∀ id ∈ ids, id ∉ skip ∧ ∃ p ∈ view.peers, p.peerId = id
  paired : ∀ id ∈ ids, ∃ e ∈ past, Pairs roomId host id e

theorem HostOf.not_gone {s : Shared} {roomId : RoomId} {host : PeerId} (hc : Consistent s)
    (h : HostOf s roomId host) : ¬Gone s roomId host := by
  rintro ⟨q, -, rfl, hnone⟩
  obtain ⟨room, hroom, he⟩ := h
  obtain ⟨p, hp, -⟩ := hc.hosted roomId room hroom
  rw [he, hnone] at hp
  cases hp

theorem pair_stays {s s' : Shared} {roomId : RoomId} {host id : PeerId} {pair : PairItem}
    (hg : Grows s s') (hc' : Consistent s') (hhost : HostOf s' roomId host)
    (h : s.table.pairAt (roomId, pairSk host id) = some pair) :
    (∃ pair', s'.table.pairAt (roomId, pairSk host id) = some pair' ∧
      pair'.instant = pair.instant) ∨
      Gone s' roomId id := by
  rcases hg.pairs roomId _ pair h with hsome | ⟨id', hkey, hgone⟩
  · exact .inl hsome
  · rcases pairSk_mem (hkey.imp Eq.symm Eq.symm) with rfl | rfl
    · exact absurd hgone (hhost.not_gone hc')
    · exact .inr hgone

theorem Confirmed.mono {past past' : Past} {s s' : Shared} {roomId : RoomId} {view : RoomView}
    {host : PeerId} {skip ids : List PeerId} (hpre : past <+: past') (hg : Grows s s')
    (hc' : Consistent s')
    (hhost : HostOf s' roomId host) (h : Confirmed past s roomId view host skip ids) :
    Confirmed past' s' roomId view host skip ids where
  nodup := h.nodup
  stays id hid := by
    obtain ⟨hne, hsome | hgone⟩ := h.stays id hid
    · obtain ⟨pair, hpair⟩ := Option.isSome_iff_exists.mp hsome
      rcases pair_stays hg hc' hhost hpair with ⟨pair', hpair', -⟩ | hgone
      · exact ⟨hne, .inl (Option.isSome_iff_exists.mpr ⟨pair', hpair'⟩)⟩
      · exact ⟨hne, .inr hgone⟩
    · exact ⟨hne, .inr (hgone.mono hg)⟩
  asked := h.asked
  paired id hid := by
    obtain ⟨e, he, hpairs⟩ := h.paired id hid
    exact ⟨e, hpre.subset he, hpairs⟩

/-- A pair that a write found absent, with its peer there, had not been put before. -/
theorem Confirmed.snoc {past : Past} {s : Shared} {e : Event store} {roomId : RoomId}
    {view : RoomView} {host id : PeerId} {skip ids : List PeerId}
    (h : Confirmed past s roomId view host skip ids)
    (hg : Grows s e.before) (hc : Consistent e.before) (hg' : Grows e.before e.after)
    (hc' : Consistent e.after) (hhost : HostOf s roomId host) (hpairs : Pairs roomId host id e)
    (hne : id ≠ host)
    (hskip : id ∉ skip) (hview : ∃ p ∈ view.peers, p.peerId = id) :
    Confirmed (past ++ [e]) e.after roomId view host skip (ids ++ [id]) where
  nodup := by
    refine List.nodup_append.mpr ⟨h.nodup, List.nodup_singleton _, ?_⟩
    intro a ha b hb hab
    obtain rfl := List.mem_singleton.mp hb
    subst hab
    have hbefore := (h.mono (List.prefix_refl _) hg hc (hhost.mono hg)).stays a ha
    rcases hbefore.2 with hsome | ⟨p, -, rfl, hnone⟩
    · rw [hpairs.2.2.1] at hsome
      cases hsome
    · obtain ⟨q, hq, -⟩ := Table.hasCandidates_iff.mp hpairs.2.1
      rw [hnone] at hq
      cases hq
  stays a ha := by
    rcases List.mem_append.mp ha with ha | ha
    · exact (h.mono (List.prefix_append past [e]) (hg.trans hg') hc'
        (hhost.mono (hg.trans hg'))).stays a ha
    · obtain rfl := List.mem_singleton.mp ha
      exact ⟨hne, .inl hpairs.2.2.2⟩
  asked a ha := by
    rcases List.mem_append.mp ha with ha | ha
    · exact h.asked a ha
    · obtain rfl := List.mem_singleton.mp ha
      exact ⟨hskip, hview⟩
  paired a ha := by
    rcases List.mem_append.mp ha with ha | ha
    · obtain ⟨e', he', hpairs'⟩ := h.paired a ha
      exact ⟨e', List.mem_append_left _ he', hpairs'⟩
    · obtain rfl := List.mem_singleton.mp ha
      exact ⟨e, List.mem_append_right _ (List.mem_singleton_self e), hpairs⟩

theorem confirm_safe {roomId : RoomId} {view : RoomView} {room : RoomItem} {host : PeerItem}
    {skip : List PeerId} {f : List PeerId → Handler α}
    (herror : ∀ e past' s', Q past' s' (.error e)) (targets : List PeerId) {confirmed : List PeerId}
    (hc : Consistent s)
    (hhost : HostOf s roomId host.peerId)
    (hdone : Confirmed past s roomId view host.peerId skip confirmed)
    (h : ∀ past' s' confirmed', past <+: past' → Grows s s' → Consistent s' →
      confirmed'.length ≤ confirmed.length + targets.length →
      Confirmed past' s' roomId view host.peerId skip confirmed' →
      rooms.Safe Q (f confirmed') past' s') :
    rooms.Safe Q (Service.confirm roomId view room host skip targets confirmed >>= f) past s := by
  induction targets generalizing past s confirmed with
  | nil => exact h past s confirmed (List.prefix_refl _) (Grows.refl s) hc (Nat.le_refl _) hdone
  | cons target rest ih =>
    have hnext : rooms.Safe Q
        (Service.confirm roomId view room host skip rest confirmed >>= f) past s := by
      refine ih hc hhost hdone fun past' s' confirmed' hpre hg hc' hlen => ?_
      exact h past' s' confirmed' hpre hg hc' (by simp only [List.length_cons]; omega)
    unfold Service.confirm
    by_cases hin : target ∈ skip
    · rw [if_pos hin]
      exact hnext
    rw [if_neg hin]
    by_cases htarget : target = host.peerId
    · rw [if_pos htarget]
      exact hnext
    rw [if_neg htarget]
    cases hknown : Service.knownPeer view target with
    | error e => exact herror e _ _
    | ok other =>
      cases hallowed : confirmAllowed (some host) other (view.pair (pairSk host.peerId target)) with
      | false =>
        simp only [Prog.ofExcept, Prog.done_bind, hallowed]
        exact hnext
      | true =>
        have hview : ∃ p ∈ view.peers, p.peerId = target := by
          cases other with
          | none => simp [confirmAllowed, peerHasCandidates] at hallowed
          | some p =>
            unfold Service.knownPeer at hknown
            split at hknown
            case h_1 q hq =>
              exact ⟨q, List.mem_of_find?_eq_some hq, by simpa using List.find?_some hq⟩
            case h_2 => split at hknown <;> cases hknown
        simp only [Prog.ofExcept, Prog.done_bind, hallowed, if_true, Prog.bind_assoc]
        refine safe_nowMs fun b₁ r₁ hg₁ hc₁ => ?_
        refine safe_read readOnly_monoNs fun b₂ r₂ hg₂ hc₂ => ?_
        refine safe_read readOnly_bootId fun b₃ r₃ hg₃ hc₃ => ?_
        have hclock : Grows b₁ { b₁ with clock := r₁.wallMs } := (Touched.refl b₁.table).grows
        have hg₀ : Grows s b₃ := hg₁.trans (hclock.trans (hg₂.trans hg₃))
        have hhost₃ := hhost.mono hg₀
        have hdone₃ :=
          hdone.mono (List.prefix_append past ([⟨b₁, r₁, .nowMs⟩] ++ [⟨b₂, r₂, .monoNs⟩] ++
          [⟨b₃, r₃, .bootId⟩])) hg₀ hc₃ hhost₃
        refine safe_confirmPair ⟨hhost₃, htarget⟩
          (fun b₄ r₄ after result hg₄ hc₄ hg₅ hc₅ hput hafter => ?_)
          herror
        have hg : Grows s after := hg₀.trans (hg₄.trans hg₅)
        simp only [List.append_assoc] at hdone₃ ⊢
        have hgo : ∀ past' confirmed', past <+: past' → confirmed'.length ≤ confirmed.length + 1 →
            Confirmed past' after roomId view host.peerId skip confirmed' →
            rooms.Safe Q (Service.confirm roomId view room host skip rest confirmed' >>= f)
              past' after := by
          intro past' confirmed' hpre hlen hdone'
          refine ih hc₅ (hhost.mono hg) hdone' fun past'' s' confirmed'' hpre' hg' hc' hlen' => ?_
          exact h past'' s' confirmed'' (hpre.trans hpre') (hg.trans hg') hc'
            (by simp only [List.length_cons]; omega)
        cases result with
        | alreadyConfirmed =>
          refine hgo _ confirmed (List.prefix_append _ _) (by omega) ?_
          exact hdone.mono (List.prefix_append _ _) hg hc₅ (hhost.mono hg)
        | notEligible =>
          refine hgo _ confirmed (List.prefix_append _ _) (by omega) ?_
          exact hdone.mono (List.prefix_append _ _) hg hc₅ (hhost.mono hg)
        | confirmed =>
          refine hgo _ (confirmed ++ [target]) (List.prefix_append _ _) (by simp) ?_
          obtain ⟨hother, habsent, hput⟩ := hput rfl
          subst hafter
          have hsnoc := hdone₃.snoc hg₄ hc₄ hg₅ hc₅ hhost₃
            ⟨hhost₃.mono hg₄, hother, habsent, Option.isSome_iff_exists.mpr ⟨_, hput⟩⟩
              htarget hin hview
          simpa only [List.append_assoc] using hsnoc

theorem mapM_some_length {α β : Type} {f : α → Option β} {xs : List α} {ys : List β}
    (h : xs.mapM f = some ys) : ys.length = xs.length := by
  induction xs generalizing ys with
  | nil =>
    obtain rfl : [] = ys := by simpa using h
    rfl
  | cons x xs ih =>
    rw [List.mapM_cons] at h
    cases hx : f x with
    | none => simp [hx] at h
    | some y =>
      cases hxs : xs.mapM f with
      | none => simp [hx, hxs] at h
      | some ys' =>
        obtain rfl : y :: ys' = ys := by simpa [hx, hxs] using h
        simp [ih hxs]

theorem peerIdList_length {body : List (Text × Json)} {name : String} {short short' short''}
    {ids : List PeerId} (h : peerIdList body name short short' short'' = .ok ids) :
    ids.length ≤ MAX_PEERS - 1 := by
  unfold peerIdList at h
  split at h
  case h_1 =>
    obtain rfl := Except.ok.inj h
    simp
  case h_2 items _ =>
    split at h
    · cases h
    · split at h
      case h_1 ids' hids =>
        obtain rfl := Except.ok.inj h
        have hlen := mapM_some_length hids
        omega
      case h_2 => cases h
  case h_3 => cases h

theorem Taken.length_le {past : Past} {roomId : RoomId} {view : RoomView} {host : PeerId}
    {ids : List PeerId} (h : Taken past s roomId view host ids)
    (hshort : (view.peers.filter fun peer => peer.peerId ≠ host).length ≤ MAX_PEERS - 1) :
    ids.length ≤ MAX_PEERS - 1 := by
  have hsub : ids ⊆ (view.peers.filter fun peer => peer.peerId ≠ host).map PeerItem.peerId := by
    intro id hid
    obtain ⟨-, hne, p, hp, rfl⟩ := h.gone id hid
    exact List.mem_map.mpr ⟨p, by simpa [hp] using hne, rfl⟩
  have hlen := (List.subperm_of_subset h.nodup hsub).length_le
  rw [List.length_map] at hlen
  omega

theorem hostReport_safe {body : List (Text × Json)} {caller : PeerId}
    (hcaller : ∀ id, uint32 body "peer_id" = .ok id → id = caller) :
    rooms.Safe (FitAnswer body caller) (Service.hostReport body) past s := by
  refine safe_ofExcept (fun _ _ => trivial) fun peerId hid => ?_
  obtain rfl := hcaller peerId hid
  refine safe_ofExcept (fun _ _ => trivial) fun token _ => ?_
  refine safe_ofExcept (fun _ _ => trivial) fun departed hdeparted => ?_
  refine safe_ofExcept (fun _ _ => trivial) fun confirms hconfirms => ?_
  have hconfirms := peerIdList_length hconfirms
  refine safe_ofExcept (fun _ _ => trivial) fun roomId hroomId => ?_
  refine safe_nowMs fun before now _ _ => ?_
  refine safe_read (readOnly_queryRoom roomId) fun s₀ r₀ _ hc₀ => ?_
  refine safe_ofExcept (fun _ _ => trivial) fun room hroom => ?_
  have hroom : s₀.table.rooms.lookup roomId = some room := checkRoom_ok hroom
  by_cases hhost : peerId = room.hostPeerId
  · subst hhost
    simp only [ne_eq, not_true_eq_false, if_false]
    refine safe_ofExcept (fun _ _ => trivial) fun host hauth => ?_
    have hat := (view_peer_iff hc₀).mp (authenticate_ok hauth).1
    have hkey : host.peerId = room.hostPeerId := hc₀.keyed _ host hat
    have hhostOf : HostOf s₀ roomId room.hostPeerId := ⟨room, hroom, rfl⟩
    have hseen := seen_query hc₀ roomId
    have hshort := others_short hc₀ (Option.isSome_iff_exists.mpr ⟨host, hat⟩)
    have hnonzero : ∀ p ∈ (queryRoom s₀.table roomId).peers, p.peerId.val ≠ 0 := by
      intro p hp
      obtain ⟨id, hid⟩ := mem_view_peers.mp hp
      exact hc₀.nonzero _ p hid
    refine releaseDeparted_safe (fun _ _ _ => trivial)
      (fun past₁ s₁ gone hpre₁ hg₁ hc₁ htaken₁ => ?_) departed hc₀
      hseen hhostOf ⟨by simp, by simp, by simp⟩
    refine reclaim_safe (fun _ _ _ => trivial) (fun past₂ s₂ removed hpre₂ hg₂ hc₂ htaken₂ => ?_) _
      (fun _ h => h)
      hc₁ (hseen.mono hg₁) (hhostOf.mono hg₁) htaken₁
    have hreleased := htaken₂.length_le hshort
    refine confirm_safe (fun _ _ _ => trivial) confirms hc₂ (hkey ▸ hhostOf.mono (hg₁.trans hg₂))
      ⟨by simp, by simp, by simp, by simp⟩ fun past₃ s₃ confirmed hpre₃ hg₃ hc₃ hlen
        hconfirmed => ?_
    unfold Service.renew
    simp only [Prog.bind_assoc]
    refine safe_renewRoom fun b r after renewed hgb hcb hga hca => ?_
    cases renewed with
    | false => exact trivial
    | true =>
      refine safe_renewItems hca fun past₄ s₄ hpre₄ hg₄ hc₄ => ?_
      refine safe_read (readOnly_queryRoom roomId) fun s₅ r₅ hg₅ hc₅ => ?_
      have hg₃₅ : Grows s₃ s₅ := hgb.trans (hga.trans (hg₄.trans hg₅))
      have hpre₃₄ : past₃ <+: past₄ := (List.prefix_append _ _).trans hpre₄
      have hhost₅ : HostOf s₅ roomId room.hostPeerId :=
        hhostOf.mono (hg₁.trans (hg₂.trans (hg₃.trans hg₃₅)))
      obtain ⟨room₅, hroom₅, hhostId⟩ := hhost₅
      obtain ⟨p, hp, -⟩ := hc₅.hosted roomId room₅ hroom₅
      rw [hhostId] at hp
      have hview₅ : (queryRoom s₅.table roomId).room = some room₅ := hroom₅
      simp only [hview₅]
      refine elements_safe fun b m n s' hb hm hn => ?_
      have hfits : Fits room.hostPeerId
        (.hostReport (expiresInS room₅.expiresAtMs now.wallMs) removed.1 confirmed
          (((queryRoom s₅.table roomId).peers.filter fun peer => peer.peerId ≠ room.hostPeerId).map
            (elementOf roomId room.hostPeerId ⟨s₅, r₅, .queryRoom roomId⟩ b m n))) := by
        refine ⟨expiresInS_nonneg _ _, hreleased, by
          simpa using hlen.trans (by simpa using hconfirms), ?_, ?_⟩
        · intro id hid
          rcases List.mem_append.mp hid with hid | hid
          · obtain ⟨-, -, q, hq, rfl⟩ := htaken₂.gone id hid
            exact hnonzero q hq
          · obtain ⟨-, q, hq, rfl⟩ := hconfirmed.asked id hid
            exact hnonzero q hq
        · have hgood := goodElements hc₅ (fun q hq => by simpa using hq)
            ((view_peers_nodup hc₅ roomId).sublist (List.filter_sublist.map _))
            (others_short hc₅ (Option.isSome_iff_exists.mpr ⟨p, hp⟩)) b.reading.bootId
              m.reading.monoNs
            n.reading.wallMs
          rwa [elementOf_eq roomId room.hostPeerId ⟨s₅, r₅, .queryRoom roomId⟩ b m n] at hgood
      rw [elementOf_eq roomId room.hostPeerId ⟨s₅, r₅, .queryRoom roomId⟩ b m n]
      refine ⟨hfits, roomId, departed, past₄, ⟨s₅, r₅, .queryRoom roomId⟩, b, m, n, hroomId,
        hid, hdeparted,
        ⟨by simp, rfl, hb, hm, hn⟩, ⟨room₅, hroom₅, hhostId⟩,
        ⟨hc₅, _, rfl, room₅, hroom₅, fun _ => rfl, fun h => absurd hhostId.symm h⟩, ?_⟩
      refine ⟨htaken₂.nodup, ?_, hconfirmed.nodup, ?_⟩
      · intro id hid
        obtain ⟨e, he, hremoves⟩ := htaken₂.removed id hid
        exact ⟨e, (hpre₃.trans hpre₃₄).subset he, hremoves⟩
      · intro id hid
        obtain ⟨hskip, -⟩ := hconfirmed.asked id hid
        obtain ⟨e, he, hpairs⟩ := hconfirmed.paired id hid
        exact ⟨fun h => hskip (List.mem_append_left _ h), e, hpre₃₄.subset he, hkey ▸ hpairs⟩
  · simp only [ne_eq, hhost, not_false_eq_true, if_true]
    exact trivial

end Sangtachi.Control
