import Sangtachi.Control.RoomConsistency

/-! # What reports do happens once

A pair is put once and keeps its rendezvous until its peer goes; a peer is taken out once. Every
answer shows this as its final read of the room found it. -/
namespace Sangtachi.Control

open AtomicPrograms
open Discipline (callsMade)

/-- A success answer that lists peers, with the room and the caller of its body. -/
structure Lists (t : ServerTask) (roomId : RoomId) (caller : PeerId)
    (list : List PeerElement) : Prop where
  asked : ∃ body, t.request.body = .obj body ∧
    normalizeRoomId (field body "room_id".toList) = .ok roomId ∧
    uint32 body "peer_id" = .ok caller
  answered : (∃ ready, t.rest.outcome = some (.ok (.peers ready list))) ∨
    ∃ expires released confirmed,
      t.rest.outcome = some (.ok (.hostReport expires released confirmed list))

structure ReportsOn (t : ServerTask) (roomId : RoomId) (departed released confirmed : List PeerId)
    (list : List PeerElement) : Prop where
  asked : ∃ body, t.request.body = .obj body ∧
    normalizeRoomId (field body "room_id".toList) = .ok roomId ∧
    peerIdList body "departed" = .ok departed
  answered : ∃ expires, t.rest.outcome = some (.ok (.hostReport expires released confirmed list))

/-- What a list of peers was computed from, and for a report what its arrays stand for. -/
structure ReportedBy (t : ServerTask) (roomId : RoomId) (caller : PeerId)
    (departed released confirmed : List PeerId) (list : List PeerElement) (pre : Past)
    (q b m n : Event store) : Prop where
  final : FinalRead roomId t.past pre q b m n
  host : HostOf q.before roomId caller
  listed : Listed roomId caller q b m n list
  reported : Reported roomId caller departed pre released confirmed

section

variable {w : ServerWorld} {t : ServerTask} {roomId : RoomId} {caller : PeerId}
  {list : List PeerElement}
  {departed released confirmed : List PeerId}

theorem reachable_told (h : Reachable NeverReused w) (ht : t ∈ w.tasks) {fields : Fields}
    (hr : t.rest.outcome = some (.ok fields)) :
    ∃ body caller, t.request.body = .obj body ∧ Told body caller t.past fields := by
  have hanswer := ((reachable_sound h).tasks t ht).outcome hr
  by_cases hbody : ∃ body, t.request.body = .obj body
  · obtain ⟨body, hbody⟩ := hbody
    have hcaller : ∃ caller, CalledBy body caller := by
      unfold CalledBy
      generalize uint32 body "peer_id" = named
      cases named with
      | ok id => exact ⟨id, fun id' h => (Except.ok.inj h).symm⟩
      | error e => exact ⟨0, fun id' h => by cases h⟩
    obtain ⟨caller, hcaller⟩ := hcaller
    exact ⟨body, caller, hbody, hanswer.told body caller hbody hcaller fields rfl⟩
  · obtain ⟨-, e, he, -⟩ := hanswer.malformed fun body h => hbody ⟨body, h⟩
    cases he

theorem Lists.told (hlists : Lists t roomId caller list) (h : Reachable NeverReused w)
    (ht : t ∈ w.tasks) :
    ∃ pre q b m n, FinalRead roomId t.past pre q b m n ∧ Listed roomId caller q b m n list := by
  obtain ⟨body, hbody, hroom, hcaller⟩ := hlists.asked
  rcases hlists.answered with ⟨ready, hr⟩ | ⟨expires, released, confirmed, hr⟩
  · obtain ⟨body', caller', hbody', -, roomId', pre, q, b, m, n, hroom', hcaller',
      hfinal, hlisted⟩ :=
      reachable_told h ht hr
    obtain rfl := Json.obj.inj (hbody.symm.trans hbody')
    obtain rfl := Except.ok.inj (hroom.symm.trans hroom')
    obtain rfl := Except.ok.inj (hcaller.symm.trans hcaller')
    exact ⟨pre, q, b, m, n, hfinal, hlisted⟩
  · obtain ⟨body', caller', hbody', -, roomId', departed, pre, q, b, m, n, hroom', hcaller', -,
      hfinal, -, hlisted,
      -⟩ := reachable_told h ht hr
    obtain rfl := Json.obj.inj (hbody.symm.trans hbody')
    obtain rfl := Except.ok.inj (hroom.symm.trans hroom')
    obtain rfl := Except.ok.inj (hcaller.symm.trans hcaller')
    exact ⟨pre, q, b, m, n, hfinal, hlisted⟩

theorem ReportsOn.told (hreports : ReportsOn t roomId departed released confirmed list)
    (h : Reachable NeverReused w) (ht : t ∈ w.tasks) :
    ∃ caller pre q b m n,
      ReportedBy t roomId caller departed released confirmed list pre q b m n := by
  obtain ⟨body, hbody, hroom, hdeparted⟩ := hreports.asked
  obtain ⟨expires, hr⟩ := hreports.answered
  obtain ⟨body', caller, hbody', -, roomId', departed', pre, q, b, m, n, hroom', -, hdeparted',
    hfinal, hhost, hlisted,
    hreported⟩ := reachable_told h ht hr
  obtain rfl := Json.obj.inj (hbody.symm.trans hbody')
  obtain rfl := Except.ok.inj (hroom.symm.trans hroom')
  obtain rfl := Except.ok.inj (hdeparted.symm.trans hdeparted')
  exact ⟨caller, pre, q, b, m, n, hfinal, hhost, hlisted, hreported⟩

end

theorem initial_ordered (clock : ℤ) : rooms.Ordered (initialWorld clock) where
  any _ _ _ _ _ _ _ _ ht := by simp [initialWorld] at ht
  own _ _ _ _ _ _ ht := by simp [initialWorld] at ht

theorem reachable_ordered {w : ServerWorld} (h : Reachable NeverReused w) : rooms.Ordered w := by
  obtain ⟨clock, hsteps⟩ := h
  exact Discipline.steps_ordered dispatch_safe (initial_sound clock) (initial_ordered clock) hsteps

/-! ## Each effect once -/

section

variable {w : ServerWorld} {roomId : RoomId} {host id : PeerId} {e e' : Event store} {i j a b : ℕ}
  {t u : ServerTask}

/-- Of two calls that take out one peer, the later would have found it gone. -/
theorem removes_once (h : Reachable NeverReused w) (ht : w.tasks[i]? = some t)
    (he : t.past[a]? = some e) (hu : w.tasks[j]? = some u) (he' : u.past[b]? = some e')
    (hremoves : Removes roomId id e)
    (hremoves' : Removes roomId id e') : i = j ∧ a = b := by
  have clash : ∀ {x y : Event store}, Removes roomId id x → Removes roomId id y →
    ¬Grows x.after y.before := by
    rintro x y ⟨-, hgone⟩ ⟨hsome, -⟩ hg
    obtain ⟨p, -, rfl, hnone⟩ := hgone.mono hg
    rw [hnone] at hsome
    cases hsome
  by_contra hne
  have hne' : i ≠ j ∨ a ≠ b := by tauto
  rcases (reachable_ordered h).any i j a b t u e e' ht he hu he' hne' with hg | hg
  · exact clash hremoves hremoves' hg
  · exact clash hremoves' hremoves hg

/-- Of two calls that put one pair, the later would have found it, or its peer gone. -/
theorem pairs_once (h : Reachable NeverReused w) (ht : w.tasks[i]? = some t)
    (he : t.past[a]? = some e) (hu : w.tasks[j]? = some u) (he' : u.past[b]? = some e')
    (hpairs : Pairs roomId host id e)
    (hpairs' : Pairs roomId host id e') : i = j ∧ a = b := by
  have clash : ∀ {x y : Event store}, Pairs roomId host id x → Pairs roomId host id y →
    Consistent y.before →
      ¬Grows x.after y.before := by
    rintro x y ⟨-, -, -, hsome⟩ ⟨hhost, hother, hnone, -⟩ hc hg
    obtain ⟨pair, hpair⟩ := Option.isSome_iff_exists.mp hsome
    rcases pair_stays hg hc hhost hpair with ⟨pair', hpair', -⟩ | ⟨p, -, rfl, hgone⟩
    · rw [hnone] at hpair'
      cases hpair'
    · obtain ⟨q, hq, -⟩ := Table.hasCandidates_iff.mp hother
      rw [hgone] at hq
      cases hq
  by_contra hne
  have hne' : i ≠ j ∨ a ≠ b := by tauto
  rcases (reachable_ordered h).any i j a b t u e e' ht he hu he' hne' with hg | hg
  · exact clash hpairs hpairs' ((reachable_sound h).call hu he').inv hg
  · exact clash hpairs' hpairs ((reachable_sound h).call ht he).inv hg

end

theorem HostOf.unique {s : Shared} {roomId : RoomId} {host host' : PeerId}
    (h : HostOf s roomId host) (h' : HostOf s roomId host') :
    host = host' := by
  obtain ⟨room, hroom, rfl⟩ := h
  obtain ⟨room', hroom', rfl⟩ := h'
  rw [hroom] at hroom'
  rw [Option.some.inj hroom']

theorem call_position {roomId : RoomId} {t : ServerTask} {pre : Past} {q b m n e : Event store}
    (hfinal : FinalRead roomId t.past pre q b m n) (he : e ∈ pre) :
    ∃ a < pre.length, t.past[a]? = some e := by
  obtain ⟨a, hlt, ha⟩ := List.getElem_of_mem he
  refine ⟨a, hlt, ?_⟩
  rw [hfinal.split, List.getElem?_append_left hlt, List.getElem?_eq_getElem hlt, ha]

theorem final_position {roomId : RoomId} {t : ServerTask} {pre : Past} {q b m n : Event store}
    (hfinal : FinalRead roomId t.past pre q b m n) : t.past[pre.length]? = some q := by
  rw [hfinal.split, List.getElem?_append_right (Nat.le_refl _)]
  simp

theorem FinalRead.unchanged {roomId : RoomId} {past pre : Past} {q b m n : Event store}
    (h : FinalRead roomId past pre q b m n) : q.after = q.before := by
  obtain ⟨before, r, call⟩ := q
  obtain rfl : call = .queryRoom roomId := h.read
  exact (readOnly_queryRoom roomId).after before r

section

variable {w : ServerWorld} {roomId : RoomId} {id : PeerId} {i j : ℕ} {t u : ServerTask}
  {departed released confirmed departed' released' confirmed' : List PeerId}
    {list list' : List PeerElement}

theorem released_once (h : Reachable NeverReused w) (ht : w.tasks[i]? = some t)
    (hu : w.tasks[j]? = some u) (hr : ReportsOn t roomId departed released confirmed list)
    (hr' : ReportsOn u roomId departed' released' confirmed' list') (hid : id ∈ released)
    (hid' : id ∈ released') :
    i = j := by
  obtain ⟨caller, pre, q, b, m, n, hby⟩ := hr.told h (List.mem_of_getElem? ht)
  obtain ⟨caller', pre', q', b', m', n', hby'⟩ := hr'.told h (List.mem_of_getElem? hu)
  obtain ⟨e, he, hremoves⟩ := hby.reported.removed id hid
  obtain ⟨e', he', hremoves'⟩ := hby'.reported.removed id hid'
  obtain ⟨a, -, ha⟩ := call_position hby.final he
  obtain ⟨a', -, ha'⟩ := call_position hby'.final he'
  exact (removes_once h ht ha hu ha' hremoves hremoves').1

theorem confirmed_once (h : Reachable NeverReused w) (ht : w.tasks[i]? = some t)
    (hu : w.tasks[j]? = some u) (hr : ReportsOn t roomId departed released confirmed list)
    (hr' : ReportsOn u roomId departed' released' confirmed' list') (hid : id ∈ confirmed)
    (hid' : id ∈ confirmed') : i = j := by
  obtain ⟨caller, pre, q, b, m, n, hby⟩ := hr.told h (List.mem_of_getElem? ht)
  obtain ⟨caller', pre', q', b', m', n', hby'⟩ := hr'.told h (List.mem_of_getElem? hu)
  obtain ⟨-, e, he, hpairs⟩ := hby.reported.paired id hid
  obtain ⟨-, e', he', hpairs'⟩ := hby'.reported.paired id hid'
  obtain ⟨a, -, ha⟩ := call_position hby.final he
  obtain ⟨a', -, ha'⟩ := call_position hby'.final he'
  have hkept := (reachable_sound h).call ht (final_position hby.final)
  have hkept' := (reachable_sound h).call hu (final_position hby'.final)
  have hhost := hby.host.mono (hby.final.unchanged ▸ hkept.grows)
  have hhost' := hby'.host.mono (hby'.final.unchanged ▸ hkept'.grows)
  obtain rfl := hhost.unique hhost'
  exact (pairs_once h ht ha hu ha' hpairs hpairs').1

end

/-! ## What later answers show -/

/-- The element shows the pair as ready since its rendezvous, by the clocks of the answer. -/
def ShowsReady (e : PeerElement) (pair : PairItem) (b m n : Event store) : Prop :=
  ∃ f, e.whenReady = some f ∧ f.punchDelayMs = pair.punchDelayMs ∧
    f.elapsedSinceReadyMs =
      elapsedSinceReadyMs pair b.reading.bootId m.reading.monoNs n.reading.wallMs

theorem elapsed_of_instant {pair pair' : PairItem} (h : pair'.instant = pair.instant) (boot : Text)
    (mono wall : ℤ) :
    pair'.punchDelayMs = pair.punchDelayMs ∧
      elapsedSinceReadyMs pair' boot mono wall = elapsedSinceReadyMs pair boot mono wall := by
  obtain ⟨hwall, hrest⟩ := Prod.mk.inj h
  obtain ⟨hmono, hrest⟩ := Prod.mk.inj hrest
  obtain ⟨hboot, hdelay⟩ := Prod.mk.inj hrest
  refine ⟨hdelay, ?_⟩
  unfold elapsedSinceReadyMs
  rw [hwall, hmono, hboot]

theorem pairSk_right (a b : PeerId) : (pairSk a b).1 = b ∨ (pairSk a b).2 = b := by
  unfold pairSk
  by_cases hab : a ≤ b
  · rw [if_pos hab]
    exact .inr rfl
  · rw [if_neg hab]
    exact .inl rfl

theorem pairSk_comm (a b : PeerId) : pairSk a b = pairSk b a := by
  unfold pairSk
  by_cases hab : a ≤ b
  · by_cases hba : b ≤ a
    · rw [if_pos hab, if_pos hba, le_antisymm hab hba]
    · rw [if_pos hab, if_neg hba]
  · have hba : b ≤ a := le_of_lt (not_le.mp hab)
    rw [if_neg hab, if_pos hba]

section

variable {roomId : RoomId} {caller host id : PeerId} {q b m n : Event store}
  {list : List PeerElement}
  {pair : PairItem}

theorem elementOf_ready {p : PeerItem} {pair' : PairItem}
    (hpair : q.before.table.pairAt (roomId, pairSk caller p.peerId) = some pair')
    (hinstant : pair'.instant = pair.instant) :
    ShowsReady (elementOf roomId caller q b m n p) pair b m n := by
  obtain ⟨hdelay, helapsed⟩ :=
    elapsed_of_instant hinstant b.reading.bootId m.reading.monoNs n.reading.wallMs
  refine ⟨⟨pair'.punchDelayMs,
    elapsedSinceReadyMs pair' b.reading.bootId m.reading.monoNs n.reading.wallMs,
    p.candidateList⟩, ?_, hdelay, helapsed⟩
  simp [elementOf, peerElement, hpair]

/-- A final read that finds the pair and its peer shows the pair to both sides. -/
theorem Listed.shows (h : Listed roomId caller q b m n list) (hhost : HostOf q.before roomId host)
    (hpeer : (q.before.table.peerAt (roomId, id)).isSome) (hne : id ≠ host) {pair' : PairItem}
    (hpair : q.before.table.pairAt (roomId, pairSk host id) = some pair')
    (hinstant : pair'.instant = pair.instant) :
    (caller = host → ∃ e ∈ list, e.peerId = id ∧ ShowsReady e pair b m n) ∧
    (caller = id → ∃ e ∈ list, e.peerId = host ∧ ShowsReady e pair b m n) := by
  obtain ⟨others, rfl, room, hroom, hforHost, hforPlayer⟩ := h.shown
  obtain rfl : room.hostPeerId = host := HostOf.unique ⟨room, hroom, rfl⟩ hhost
  constructor
  · rintro rfl
    obtain ⟨p, hp⟩ := Option.isSome_iff_exists.mp hpeer
    obtain rfl : p.peerId = id := h.consistent.keyed _ p hp
    have hmem : p ∈ others := by
      rw [hforHost rfl]
      exact List.mem_filter.mpr ⟨mem_view_peers.mpr ⟨_, hp⟩, by simpa using hne⟩
    exact ⟨_, List.mem_map_of_mem hmem, rfl, elementOf_ready hpair hinstant⟩
  · rintro rfl
    obtain ⟨p, hp, rfl⟩ := hforPlayer hne
    have hkey : p.peerId = room.hostPeerId := h.consistent.keyed _ p hp
    refine ⟨_, List.mem_map_of_mem (List.mem_singleton_self p), hkey, elementOf_ready ?_ hinstant⟩
    rw [hkey, pairSk_comm]
    exact hpair

theorem Listed.not_gone (h : Listed roomId caller q b m n list) (hgone : Gone q.before roomId id) :
    id ∉ list.map PeerElement.peerId := by
  intro hid
  obtain ⟨e, he, rfl⟩ := List.mem_map.mp hid
  obtain ⟨others, rfl, room, hroom, hforHost, hforPlayer⟩ := h.shown
  obtain ⟨p, hp, rfl⟩ := List.mem_map.mp he
  have hthere : q.before.table.peerAt (roomId, p.peerId) = some p := by
    by_cases hhost : caller = room.hostPeerId
    · rw [hforHost hhost] at hp
      obtain ⟨id, hid⟩ := mem_view_peers.mp (List.mem_filter.mp hp).1
      have hkey : p.peerId = id := h.consistent.keyed _ p hid
      rwa [hkey]
    · obtain ⟨host, hat, rfl⟩ := hforPlayer hhost
      obtain rfl := List.mem_singleton.mp hp
      have hkey : p.peerId = room.hostPeerId := h.consistent.keyed _ p hat
      rwa [hkey]
  obtain ⟨p', -, hid, hnone⟩ := hgone
  rw [show (elementOf roomId caller q b m n p).peerId = p.peerId from rfl, hthere] at hnone
  cases hnone

end

/-! ## Over a run -/

theorem Consistent.paired_peer {s : Shared} {roomId : RoomId} {host id : PeerId} {pair : PairItem}
    (hc : Consistent s) (hhost : HostOf s roomId host)
    (hpair : s.table.pairAt (roomId, pairSk host id) = some pair) :
    id ≠ host ∧ (s.table.peerAt (roomId, id)).isSome := by
  obtain ⟨-, room, other, hroom, hne, hkey, -, hcandidates⟩ := hc.paired roomId _ pair hpair
  obtain rfl : room.hostPeerId = host := HostOf.unique ⟨room, hroom, rfl⟩ hhost
  have hid : id = other := by
    have hother : other = room.hostPeerId ∨ other = id := by
      apply pairSk_mem
      rw [hkey]
      exact pairSk_right room.hostPeerId other
    exact (hother.resolve_left hne).symm
  obtain ⟨p, hp, -⟩ := Table.hasCandidates_iff.mp hcandidates
  refine ⟨hid ▸ hne, ?_⟩
  rw [hid, hp]
  rfl

theorem gone_removed {w w' : ServerWorld} {roomId : RoomId} {id : PeerId}
    (h : Reachable NeverReused w) (hsteps : ServerSteps NeverReused w w')
    (hpeer : (w.state.table.peerAt (roomId, id)).isSome) (hgone : Gone w'.state roomId id) :
    ∃ u ∈ w'.tasks, ∃ e ∈ u.past, Removes roomId id e := by
  induction hsteps with
  | refl =>
    obtain ⟨p, -, -, hnone⟩ := hgone
    rw [hnone] at hpeer
    cases hpeer
  | @tail v v' hrun hstep ih =>
    by_cases hbefore : Gone v.state roomId id
    · obtain ⟨u, hu, e, he, hremoves⟩ := ih hbefore
      obtain ⟨j, hj⟩ := List.mem_iff_getElem?.mp hu
      obtain ⟨u', hu', -, hpre⟩ :=
        Discipline.steps_prefix (Relation.ReflTransGen.single hstep) hj
      exact ⟨u', List.mem_of_getElem? hu', e, hpre.subset he, hremoves⟩
    · -- the step that takes the peer away is the call sought
      have hthere : (v.state.table.peerAt (roomId, id)).isSome := by
        obtain ⟨p, hp⟩ := Option.isSome_iff_exists.mp hpeer
        obtain ⟨q, hq, hsame⟩ := h.consistent.recorded _ p hp
        have hid : q.peerId = id := hsame.peerId.symm.trans (h.consistent.keyed _ p hp)
        by_contra hnone
        exact hbefore ⟨q, (h.grows hrun).issued _ hq, hid, by simpa using hnone⟩
      rcases step_cases hstep with ⟨q, rfl⟩ | ⟨index, t, r, c, next, ht, -, -, rfl⟩
      · exact absurd hgone hbefore
      · have hlt : index < v.tasks.length := (List.getElem?_eq_some_iff.mp ht).1
        refine ⟨_, List.mem_of_getElem? (List.getElem?_set_self hlt), ⟨v.state, r, c⟩, ?_,
          hthere, hgone⟩
        exact List.mem_append_right _ (List.mem_singleton_self _)

/-- A call made by some moment of a run was made on a state that has grown to that moment's. -/
theorem made_grows {w w' : ServerWorld} {i a : ℕ} {t : ServerTask} {e : Event store}
    (h : Reachable NeverReused w) (hsteps : ServerSteps NeverReused w w')
    (ht : w'.tasks[i]? = some t) (ha : t.past[a]? = some e)
    (hmade : a < callsMade w i) :
    Grows e.after w.state := by
  unfold callsMade at hmade
  cases hi : w.tasks[i]? with
  | none => simp [hi] at hmade
  | some u =>
    obtain ⟨t', ht', -, hpre⟩ := Discipline.steps_prefix hsteps hi
    obtain rfl := Option.some.inj (ht.symm.trans ht')
    simp only [hi, Option.map_some, Option.getD_some] at hmade
    have hat : u.past[a]? = some e := by
      rw [← ha, List.getElem?_eq_getElem hmade, hpre.getElem hmade, ← List.getElem?_eq_getElem]
    exact ((reachable_sound h).call hi hat).grows

/-- From the first world on, every list of the run read later shows the pair to its two sides, with
one delay and one instant, as long as no call has taken the peer out. -/
def StaysReady (w w' : ServerWorld) (roomId : RoomId) (host id : PeerId) (pair : PairItem) : Prop :=
  ∀ i t caller list, w'.tasks[i]? = some t → Lists t roomId caller list →
    ∃ pre q b m n, FinalRead roomId t.past pre q b m n ∧ (callsMade w i ≤ pre.length →
      (Gone q.before roomId id ∧ ∃ u ∈ w'.tasks, ∃ e ∈ u.past, Removes roomId id e) ∨
      (caller = host → ∃ e ∈ list, e.peerId = id ∧ ShowsReady e pair b m n) ∧
      (caller = id → ∃ e ∈ list, e.peerId = host ∧ ShowsReady e pair b m n))

def Releases (t : ServerTask) (roomId : RoomId) (id : PeerId) : Prop :=
  ∃ departed released confirmed list,
    ReportsOn t roomId departed released confirmed list ∧ id ∈ released

def Confirms (t : ServerTask) (roomId : RoomId) (id : PeerId) : Prop :=
  ∃ departed released confirmed list, ReportsOn t roomId departed released confirmed list ∧
    id ∈ confirmed

/-- What the two arrays of all reports so far list. -/
structure ReportsOnce (w : ServerWorld) : Prop where
  released : ∀ (i j : ℕ) t u roomId id, w.tasks[i]? = some t → w.tasks[j]? = some u →
    Releases t roomId id →
    Releases u roomId id → i = j
  confirmed : ∀ (i j : ℕ) t u roomId id, w.tasks[i]? = some t → w.tasks[j]? = some u →
    Confirms t roomId id →
    Confirms u roomId id → i = j
  nodup : ∀ roomId t departed released confirmed list, t ∈ w.tasks →
    ReportsOn t roomId departed released confirmed list → released.Nodup ∧ confirmed.Nodup
  departedWins : ∀ roomId id t departed released confirmed list, t ∈ w.tasks →
    ReportsOn t roomId departed released confirmed list → id ∈ departed → id ∉ confirmed

/-- A released peer is not in the list beside it, nor in a list of the run that was read after the
call that released it. -/
def StaysReleased (w w' : ServerWorld) : Prop :=
  ∀ i t roomId departed released confirmed list id, w'.tasks[i]? = some t →
    ReportsOn t roomId departed released confirmed list → id ∈ released →
    id ∉ list.map PeerElement.peerId ∧
    ∃ a e, t.past[a]? = some e ∧ Removes roomId id e ∧ (a < callsMade w i →
      ∀ j u caller list', w'.tasks[j]? = some u → Lists u roomId caller list' →
        ∃ pre q b m n, FinalRead roomId u.past pre q b m n ∧
          (callsMade w j ≤ pre.length → id ∉ list'.map PeerElement.peerId))

section

variable {w w' : ServerWorld}

theorem pair_stays_ready (h : Reachable NeverReused w) (hsteps : ServerSteps NeverReused w w')
    {roomId : RoomId} {host id : PeerId} {pair : PairItem} (hhost : HostOf w.state roomId host)
    (hpair : w.state.table.pairAt (roomId, pairSk host id) = some pair) :
    StaysReady w w' roomId host id pair := by
  intro i t caller list ht hlists
  have hreach : Reachable NeverReused w' := h.later hsteps
  obtain ⟨pre, q, b, m, n, hfinal, hlisted⟩ := hlists.told hreach (List.mem_of_getElem? ht)
  refine ⟨pre, q, b, m, n, hfinal, fun hlater => ?_⟩
  have hq := final_position hfinal
  have hgrows : Grows w.state q.before :=
    Discipline.steps_since dispatch_safe (reachable_sound h) hsteps ht hq hlater
  have hend : Grows q.before w'.state :=
    hfinal.unchanged ▸ ((reachable_sound hreach).call ht hq).grows
  -- the other side of the pair was in the room when the pair was seen
  obtain ⟨hne, hthere⟩ := h.consistent.paired_peer hhost hpair
  have hhostq : HostOf q.before roomId host := hhost.mono hgrows
  rcases pair_stays hgrows hlisted.consistent hhostq hpair with ⟨pair', hpair', hinstant⟩ | hgone
  · have hstill := (hlisted.consistent.paired_peer hhostq hpair').2
    exact .inr (hlisted.shows hhostq hstill hne hpair' hinstant)
  · exact .inl ⟨hgone, gone_removed h hsteps hthere (hgone.mono hend)⟩

theorem reports_once (h : Reachable NeverReused w) : ReportsOnce w where
  released _ _ _ _ _ _ ht hu hr hr' := by
    obtain ⟨_, _, _, _, hr, hid⟩ := hr
    obtain ⟨_, _, _, _, hr', hid'⟩ := hr'
    exact released_once h ht hu hr hr' hid hid'
  confirmed _ _ _ _ _ _ ht hu hr hr' := by
    obtain ⟨_, _, _, _, hr, hid⟩ := hr
    obtain ⟨_, _, _, _, hr', hid'⟩ := hr'
    exact confirmed_once h ht hu hr hr' hid hid'
  nodup _ t _ _ _ _ ht hr := by
    obtain ⟨caller, pre, q, b, m, n, hby⟩ := hr.told h ht
    exact ⟨hby.reported.releasedOnce, hby.reported.confirmedOnce⟩
  departedWins _ id t _ _ _ _ ht hr hdeparted hconfirmed := by
    obtain ⟨caller, pre, q, b, m, n, hby⟩ := hr.told h ht
    exact (hby.reported.paired id hconfirmed).1 hdeparted

theorem released_stays_released (h : Reachable NeverReused w)
    (hsteps : ServerSteps NeverReused w w') : StaysReleased w w' := by
  intro i t roomId departed released confirmed list id ht hr hid
  have hreach : Reachable NeverReused w' := h.later hsteps
  obtain ⟨caller, pre, q, b, m, n, hby⟩ := hr.told hreach (List.mem_of_getElem? ht)
  obtain ⟨e, he, hremoves⟩ := hby.reported.removed id hid
  obtain ⟨a, hlt, ha⟩ := call_position hby.final he
  constructor
  · have hgrows :=
      (reachable_ordered hreach).own i a pre.length t e q ht ha (final_position hby.final) hlt
    exact hby.listed.not_gone (hremoves.2.mono hgrows)
  · refine ⟨a, e, ha, hremoves, fun hmade j u caller' list' hu hlists => ?_⟩
    obtain ⟨pre', q', b', m', n', hfinal, hlisted⟩ := hlists.told hreach (List.mem_of_getElem? hu)
    refine ⟨pre', q', b', m', n', hfinal, fun hlater => ?_⟩
    have hgrows : Grows w.state q'.before :=
      Discipline.steps_since dispatch_safe (reachable_sound h) hsteps hu
        (final_position hfinal) hlater
    exact hlisted.not_gone ((hremoves.2.mono (made_grows h hsteps ht ha hmade)).mono hgrows)

end

/-- A pair stays ready, reports list each effect once, and a released peer stays released. -/
theorem readiness_happens_once {w w' : ServerWorld} (h : Reachable NeverReused w)
    (hsteps : ServerSteps NeverReused w w') :
    (∀ roomId host id pair, HostOf w.state roomId host →
      w.state.table.pairAt (roomId, pairSk host id) = some pair →
      StaysReady w w' roomId host id pair) ∧
    ReportsOnce w' ∧ StaysReleased w w' :=
  ⟨fun _ _ _ _ hhost hpair => pair_stays_ready h hsteps hhost hpair, reports_once (h.later hsteps),
    released_stays_released h hsteps⟩

/-! ## An answer that was read before -/

/-- The host's poll has read the room, and then its report releases the player. -/
def stalePoll : List (Action store Service.Request) :=
  sampleCalls samplePeers 5 2 5000 0 ++ sampleCalls (sampleReport [.int 2] []) 6 11 6000 0

/-- The poll reads its clocks and answers. -/
def staleAnswer : List (Action store Service.Request) :=
  List.replicate 3 (.advance 5 (sampleReading 7000 0))

def staleReleased : ServerWorld :=
  (play NeverReused Service.dispatch stalePoll sampleMet).get (by decide +kernel)

def staleListed : ServerWorld :=
  (play NeverReused Service.dispatch staleAnswer staleReleased).get (by decide +kernel)

theorem staleReleased_steps : ServerSteps NeverReused sampleMet staleReleased :=
  steps_of_play (Option.some_get _).symm

theorem staleListed_steps : ServerSteps NeverReused staleReleased staleListed :=
  steps_of_play (Option.some_get _).symm

theorem sample_readiness_once :
    ∃ pair, HostOf sampleMet.state sampleRoom 1 ∧
      sampleMet.state.table.pairAt (sampleRoom, pairSk 1 2) = some pair ∧
      StaysReady sampleMet staleListed sampleRoom 1 2 pair ∧ ReportsOnce staleListed ∧
      StaysReleased sampleMet staleListed := by
  have hsteps : ServerSteps NeverReused sampleMet staleListed :=
    staleReleased_steps.trans staleListed_steps
  have hhost : (sampleMet.state.table.rooms.lookup sampleRoom).map RoomItem.hostPeerId =
    some 1 := by decide +kernel
  have hpair : (sampleMet.state.table.pairAt (sampleRoom, pairSk 1 2)).isSome := by decide +kernel
  obtain ⟨room, hroom⟩ := Option.map_eq_some_iff.mp hhost
  obtain ⟨pair, hpair⟩ := Option.isSome_iff_exists.mp hpair
  obtain ⟨hready, honce, hreleased⟩ := readiness_happens_once sampleMet_reachable hsteps
  exact ⟨pair, ⟨room, hroom⟩, hpair, hready sampleRoom 1 2 pair ⟨room, hroom⟩ hpair,
    honce, hreleased⟩

/-- A peer that an answer has released is in no list of an answer that comes after it. -/
def NeverListedAgain (w w' : ServerWorld) : Prop :=
  ∀ (i j : ℕ) t u roomId id caller list, w.tasks[i]? = some t → Releases t roomId id →
    w'.tasks[j]? = some u → (∀ v, w.tasks[j]? = some v → v.rest.outcome = none) →
    Lists u roomId caller list →
    id ∉ list.map PeerElement.peerId

def reportOf (t : ServerTask) : Option (RoomId × List PeerId × List PeerId) :=
  match t.request.body, t.rest.outcome with
  | .obj body, some (.ok (.hostReport _ released confirmed _)) =>
    match normalizeRoomId (field body "room_id".toList),
      peerIdList body "departed" departed_item_short departed_kind_short departed_size_short with
    | .ok roomId, .ok _ => some (roomId, released, confirmed)
    | _, _ => none
  | _, _ => none

def pollOf (t : ServerTask) : Option (RoomId × PeerId × List PeerElement) :=
  match t.request.body, t.rest.outcome with
  | .obj body, some (.ok (.peers _ list)) =>
    match normalizeRoomId (field body "room_id".toList), uint32 body "peer_id" peerId_short with
    | .ok roomId, .ok caller => some (roomId, caller, list)
    | _, _ => none
  | _, _ => none

theorem releases_of_report {t : ServerTask} {roomId : RoomId}
    {released confirmed : List PeerId} {id : PeerId}
    (h : reportOf t = some (roomId, released, confirmed)) (hid : id ∈ released) :
    Releases t roomId id := by
  unfold reportOf at h
  split at h
  case h_1 body expires r c list hbody hanswer =>
    split at h
    case h_1 room departed hroom hdeparted =>
      obtain ⟨rfl, rfl, rfl⟩ : room = roomId ∧ r = released ∧ c = confirmed := by simpa using h
      exact ⟨departed, r, c, list, ⟨⟨body, hbody, hroom, hdeparted⟩, expires, hanswer⟩, hid⟩
    case h_2 => cases h
  case h_2 => cases h

theorem lists_of_poll {t : ServerTask} {roomId : RoomId} {caller : PeerId} {list : List PeerElement}
    (h : pollOf t = some (roomId, caller, list)) : Lists t roomId caller list := by
  unfold pollOf at h
  split at h
  case h_1 body ready l hbody hanswer =>
    split at h
    case h_1 room id hroom hid =>
      obtain ⟨rfl, rfl, rfl⟩ : room = roomId ∧ id = caller ∧ l = list := by simpa using h
      exact ⟨⟨body, hbody, hroom, hid⟩, .inl ⟨ready, hanswer⟩⟩
    case h_2 => cases h
  case h_2 => cases h

theorem stale_answers :
    staleReleased.tasks[6]?.bind reportOf = some (sampleRoom, [2], []) ∧
    staleReleased.tasks[5]?.bind (fun t => t.rest.outcome) = none ∧
    (staleListed.tasks[5]?.bind pollOf).map
      (fun poll => (poll.1, poll.2.2.map PeerElement.peerId)) =
      some (sampleRoom, [2]) := by
  decide +kernel

theorem released_listed_again : ¬∀ w w', Reachable NeverReused w → ServerSteps NeverReused w w' →
    NeverListedAgain w w' := by
  intro h
  obtain ⟨hreport, hwaiting, hpoll⟩ := stale_answers
  obtain ⟨t, ht, hreport⟩ := Option.bind_eq_some_iff.mp hreport
  obtain ⟨⟨roomId, caller, list⟩, hpoll, hlist⟩ := Option.map_eq_some_iff.mp hpoll
  obtain ⟨u, hu, hpoll⟩ := Option.bind_eq_some_iff.mp hpoll
  obtain ⟨rfl, hlist⟩ := Prod.mk.inj hlist
  have hnever :=
    h staleReleased staleListed (sampleMet_reachable.later staleReleased_steps) staleListed_steps
  refine hnever 6 5 t u sampleRoom 2 caller list ht
    (releases_of_report hreport (List.mem_singleton_self _)) hu ?_
    (lists_of_poll hpoll) ?_
  · intro v hv
    simpa [hv] using hwaiting
  · rw [hlist]
    exact List.mem_singleton_self _

/-! ## A peer id drawn again -/

/-- The player is released, one that draws its id joins, and the host reports it as departed too. -/
def reuseSchedule : List (Action store Service.Request) :=
  sampleCalls (sampleReport [.int 2] []) 5 11 6000 0 ++ sampleCalls sampleJoin 6 6 7000 1 ++
    sampleCalls (sampleReport [.int 2] []) 7 11 8000 0

def reuseWorld : ServerWorld :=
  (play AnyReading Service.dispatch reuseSchedule sampleMet).get (by decide +kernel)

theorem reuse_answers :
    reuseWorld.tasks[5]?.bind reportOf = some (sampleRoom, [2], []) ∧
    reuseWorld.tasks[7]?.bind reportOf = some (sampleRoom, [2], []) := by
  decide +kernel

theorem released_twice : ¬∀ w w', Reachable NeverReused w → ServerSteps AnyReading w w' →
    ReportsOnce w' := by
  intro h
  obtain ⟨hfirst, hsecond⟩ := reuse_answers
  obtain ⟨t, ht, hfirst⟩ := Option.bind_eq_some_iff.mp hfirst
  obtain ⟨u, hu, hsecond⟩ := Option.bind_eq_some_iff.mp hsecond
  have hsteps : ServerSteps AnyReading sampleMet reuseWorld :=
    steps_of_play (Option.some_get _).symm
  have hsame :=
    (h sampleMet reuseWorld sampleMet_reachable hsteps).released 5 7 t u sampleRoom 2 ht hu
    (releases_of_report hfirst (List.mem_singleton_self _))
      (releases_of_report hsecond (List.mem_singleton_self _))
  cases hsame

/-- A released peer shows in a later answer that was read before, and its id may be drawn again. -/
theorem readiness_may_repeat :
    (¬∀ w w', Reachable NeverReused w → ServerSteps NeverReused w w' → NeverListedAgain w w') ∧
    ¬∀ w w', Reachable NeverReused w → ServerSteps AnyReading w w' → ReportsOnce w' :=
  ⟨released_listed_again, released_twice⟩

end Sangtachi.Control
