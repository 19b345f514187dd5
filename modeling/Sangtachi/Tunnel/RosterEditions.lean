import Sangtachi.Peer.Rosters
import Sangtachi.Tunnel.Emission
import Sangtachi.Tunnel.RosterPeriods

/-! # Host and player agree on the rosters

In one period of the host the number of a roster names its content, and every connected session has
last been sent the present roster; a player takes rosters whose numbers do not fall. -/
namespace Sangtachi.Tunnel

open Sangtachi.BigEndian Sangtachi.Packet Sangtachi.Peer

variable {io : SessionId → SessionIo} {T T' : Tunnel} {e : Entry} {now t : Millis} {k : U32}
  {op : Op} {a : Action}
  {l : List Turn}

/-! ## The numbers of the rosters -/

theorem nodup_of_served {sends : List RosterSend} (h : ∀ k, (sends.filter (·.1 = k)).length ≤ 1) :
    (sends.map (·.1)).Nodup := by
  rw [List.nodup_iff_count_le_one]
  intro k
  have hcount : (sends.map (·.1)).count k = (sends.filter (·.1 = k)).length := by
    rw [List.count_eq_countP, List.countP_map, List.countP_eq_length_filter]
    congr 1
  rw [hcount]
  exact h k

/-- What one turn of a period does: it sends to each session once at most, unless its next time has
come round, the roster that it leaves, and that is the one before or one under the next number. -/
structure Edition (io : SessionId → SessionIo) (x : Turn) : Prop where
  once : x.now + rosterIntervalMs < 2 ^ 64 → ((rosterSends io x).map (·.1)).Nodup
  present : ∀ s ∈ rosterSends io x, x.after.roster.payload = some s.2
  next : x.after.roster.generation = x.before.roster.generation ∧
    x.after.roster.last = x.before.roster.last ∨
    x.after.roster.generation = x.before.roster.generation + 1

theorem heard_edition (r : RosterPublisher) (k : U32) (x : SessionState × SessionState) :
    (heard k r x).generation = r.generation ∧ (heard k r x).last = r.last := by
  unfold heard RosterPublisher.onConnectedChange
  by_cases hchanged : (x.1 = .connected) ≠ (x.2 = .connected)
  · rw [if_pos hchanged]
    by_cases hself : r.self.isNone = true
    · rw [if_pos hself]
      exact ⟨rfl, rfl⟩
    · rw [if_neg hself]
      exact ⟨rfl, rfl⟩
  · rw [if_neg hchanged]
    exact ⟨rfl, rfl⟩

theorem call_edition (k : U32) (op : Op) :
    (T.call io k op now).roster.generation = T.roster.generation ∧
    (T.call io k op now).roster.last = T.roster.last := by
  cases hfind : T.find k with
  | none =>
    rw [call_none hfind]
    exact ⟨rfl, rfl⟩
  | some e =>
    rw [call_roster hfind]
    exact heard_edition _ _ _

theorem foldl_call_edition (op : Op) (peers : List U32) :
    (peers.foldl (fun T peerId => T.call io peerId op now) T).roster.generation =
      T.roster.generation ∧
      (peers.foldl (fun T peerId => T.call io peerId op now) T).roster.last = T.roster.last := by
  induction peers generalizing T with
  | nil => exact ⟨rfl, rfl⟩
  | cons k rest ih =>
    obtain ⟨hgeneration, hlast⟩ := @call_edition io T now k op
    obtain ⟨hgeneration', hlast'⟩ := ih (T := T.call io k op now)
    exact ⟨hgeneration'.trans hgeneration, hlast'.trans hlast⟩

theorem Parts.edition (hparts : Parts io now a T T') (ha : Between a) (hrun : a ≠ .runTimers) :
    T'.roster.generation = T.roster.generation ∧ T'.roster.last = T.roster.last := by
  induction hparts with
  | refl => exact ⟨rfl, rfl⟩
  | @tail U V _ hlast ih =>
    have hone : V.roster.generation = U.roster.generation ∧ V.roster.last = U.roster.last := by
      cases hlast with
      | called e op _ _ _ => exact call_edition _ op
      | counted c => exact ⟨rfl, rfl⟩
      | countedFor k c => exact ⟨rfl, rfl⟩
      | erased e _ _ => exact ⟨rfl, rfl⟩
      | registered => exact ⟨rfl, rfl⟩
      | inserted request epoch nonce _ _ => exact ⟨rfl, rfl⟩
      | settings roster localVip hrepublished =>
        cases hrepublished with
        | same => exact ⟨rfl, rfl⟩
        | run => exact absurd rfl hrun
        | start self => exact ha.elim
        | stop => exact ha.elim
        | peers peers => exact ⟨rfl, rfl⟩
    exact ⟨hone.1.trans ih.1, hone.2.trans ih.2⟩

theorem Period.edition (hp : Period io l t T) (ha : Between a) :
    Edition io ⟨now, a, T, T.perform io a now⟩ := by
  obtain ⟨h, hr⟩ := hp.run
  have hi := run_invariant hr
  by_cases htimers : a = .runTimers
  · subst htimers
    have hcurrent := hp.current
    have hclear := hi.cleared
    have hsends := @rosterSends_timers io T (T.perform io .runTimers now) now
    have hafter : T.perform io .runTimers now =
      ({ T with out := [] } : Tunnel).runTimers io now := rfl
    have hpoll : Effects io now .runTimers { T with out := [] }
      (({ T with out := [] } : Tunnel).callAll io .poll now) :=
      foldl_call_effects (by simp) _
    have hnodup := connected_nodup (Effects.invariant hpoll hclear)
    have hpolled : Current io l (({ T with out := [] } : Tunnel).callAll io .poll now) :=
      hcurrent.foldl_call hclear _
    have hsame : (({ T with out := [] } : Tunnel).callAll io .poll now).roster.generation =
      T.roster.generation ∧
        (({ T with out := [] } : Tunnel).callAll io .poll now).roster.last =
          T.roster.last := foldl_call_edition .poll _
    have hroster := @runTimers_roster io _ now hclear
    rw [← hafter] at hroster
    generalize ({ T with out := [] } : Tunnel).callAll io .poll now =
      A at hsends hnodup hpolled hsame hroster
    obtain ⟨self, hself, -⟩ := hpolled.proper.self
    have hran := RosterPublisher.run_ran hself now A.connected
    refine ⟨fun hfits => ?_, ?_, ?_⟩
    · rw [hsends]
      apply nodup_of_served
      intro k
      by_cases hk : k ∈ A.connected
      · rcases (RosterPublisher.run_serves hself now hnodup hk fun hclean =>
          hpolled.served hclean k hk).2 with
          ⟨more, hserved, honce⟩ | ⟨hnone, -⟩
        · rw [hserved, honce hfits, List.append_nil]
          unfold RosterPublisher.sending
          rw [List.length_map]
          exact Option.length_toList_le
        · rw [hnone]
          exact Nat.zero_le _
      · have hnone : (A.roster.run now A.connected).1.filter (·.1 = k) = [] := by
          rw [List.filter_eq_nil_iff]
          intro s hs hsk
          rw [decide_eq_true_eq] at hsk
          exact hk (hsk ▸ (hran.sends s hs).1)
        rw [hnone]
        exact Nat.zero_le _
    · intro s hs
      rw [hsends] at hs
      exact hroster ▸ (hran.sends s hs).2
    · dsimp only
      rw [hroster, ← hsame.1, ← hsame.2]
      exact RosterPublisher.run_edition hself now A.connected
  · have hparts : Parts io now a { T with out := [] } (T.perform io a now) :=
      perform_parts hi (written_rule.run_roster hr) a
    have hnone : rosterSends io ⟨now, a, T, T.perform io a now⟩ = [] := rosterSends_none htimers
    refine ⟨fun _ => ?_, ?_, .inl (hparts.edition ha htimers)⟩
    · rw [hnone]
      exact List.nodup_nil
    · intro s hs
      rw [hnone] at hs
      cases hs

/-- A later roster has no smaller number, and the same one only when it is the same. -/
def Follows (s s' : RosterSend) : Prop :=
  generationOf s.2 ≤ generationOf s'.2 ∧ (generationOf s.2 = generationOf s'.2 → s.2 = s'.2)

/-- As long as the number has not come round, it counts the changes. -/
structure Editions (io : SessionId → SessionIo) (l : List Turn) (T : Tunnel) : Prop where
  counted : T.roster.generation.toNat = changes l
  follow : (l.flatMap (rosterSends io)).Pairwise Follows
  past : ∀ s ∈ l.flatMap (rosterSends io), generationOf s.2 ≤ T.roster.generation ∧
    (generationOf s.2 = T.roster.generation → T.roster.payload = some s.2)

theorem Period.editions (hp : Period io l t T) (hfew : changes l < 2 ^ 32) : Editions io l T := by
  induction hp with
  | opened self now _ _ _ => exact ⟨rfl, List.Pairwise.nil, fun s hs => (by cases hs)⟩
  | @turn l t T a now hp ht ha ih =>
    have hx : Edition io ⟨now, a, T, T.perform io a now⟩ := hp.edition ha
    rw [changes_append] at hfew
    dsimp only at hfew
    obtain ⟨hcounted, hfollow, hpast⟩ := ih (by omega)
    obtain ⟨honce, hpresent, hnext⟩ := hx
    dsimp only at hpresent hnext
    have hone : ∀ g : U32, g ≠ g + 1 := by
      intro g h
      have hsum := congrArg (fun x => x - g) h
      simp at hsum
    have hstep : (T.perform io a now).roster.generation.toNat = changes l +
        (if T.roster.generation ≠ (T.perform io a now).roster.generation then 1 else 0) := by
      rcases hnext with ⟨hsame, -⟩ | hnew
      · rw [hsame, if_neg (by simp), hcounted]
        rfl
      · rw [hnew, if_pos (hone _)] at hfew ⊢
        rw [BitVec.toNat_add, hcounted]
        exact Nat.mod_eq_of_lt hfew
    have hpast' : ∀ s ∈ l.flatMap (rosterSends io),
      generationOf s.2 ≤ (T.perform io a now).roster.generation ∧
        (generationOf s.2 = (T.perform io a now).roster.generation →
          (T.perform io a now).roster.payload = some s.2) := by
      intro s hs
      obtain ⟨hle, hsame⟩ := hpast s hs
      rcases hnext with ⟨hgeneration, hlast⟩ | hnew
      · rw [hgeneration]
        refine ⟨hle, fun heq => ?_⟩
        rw [RosterPublisher.payload, hgeneration, hlast]
        exact hsame heq
      · rw [hnew, if_pos (hone _)] at hstep
        rw [BitVec.le_def] at hle ⊢
        rw [hnew]
        refine ⟨by omega, fun heq => ?_⟩
        have hnat := congrArg BitVec.toNat heq
        omega
    have hnew : ∀ s ∈ rosterSends io ⟨now, a, T, T.perform io a now⟩,
        generationOf s.2 = (T.perform io a now).roster.generation := fun s hs =>
        payload_generation (hpresent s hs)
    refine ⟨?_, ?_, ?_⟩
    · rw [changes_append]
      exact hstep
    · rw [List.flatMap_append, List.flatMap_singleton, List.pairwise_append]
      refine ⟨hfollow, ?_, ?_⟩
      · apply List.pairwise_of_forall_mem_list
        intro s hs s' hs'
        have hequal := Option.some.inj ((hpresent s hs).symm.trans (hpresent s' hs'))
        exact ⟨by rw [hequal]; exact BitVec.le_refl _, fun _ => hequal⟩
      · intro s hs s' hs'
        obtain ⟨hle, hsame⟩ := hpast' s hs
        rw [← hnew s' hs'] at hle hsame
        exact ⟨hle, fun heq => Option.some.inj ((hsame heq).symm.trans (hpresent s' hs'))⟩
    · intro s hs
      rw [List.flatMap_append, List.flatMap_singleton] at hs
      rcases List.mem_append.mp hs with hs | hs
      · exact hpast' s hs
      · rw [hnew s hs]
        exact ⟨BitVec.le_refl _, fun _ => hpresent s hs⟩

theorem Period.presents (hp : Period io l t T) : ∀ x ∈ l, Edition io x := by
  induction hp with
  | opened self now _ _ _ =>
    intro x hx
    cases hx
  | turn a now hp _ ha ih =>
    intro x hx
    rcases List.mem_append.mp hx with hx | hx
    · exact ih x hx
    · rw [List.mem_singleton.mp hx]
      exact hp.edition ha

/-! ## The datagrams -/

/-- Where a session sends what is for its peer: to the endpoint of the peer, or to every candidate
before that is known. -/
def destinations (C : SessionConfig) (s : Session) : List Endpoint :=
  match s.peerEndpoint with
  | some dest => [dest]
  | none => C.candidates

/-- A ROSTER datagram: whose it is, what it says and where it goes. -/
abbrev RosterDatagram := SessionId × List U8 × Endpoint

def rosterDatagram (id : SessionId) (d : Sent) : Option RosterDatagram :=
  if d.type = .roster then some (id, d.payload, d.dest) else none

/-- The ROSTER datagrams that the sessions hand to the socket, in their order. -/
def rosterDatagrams (out : List (SessionId × Event)) : List RosterDatagram :=
  out.filterMap fun x => x.2.sent?.bind (rosterDatagram x.1)

/-- What becomes of a payload for the session of a peer: one datagram to each of its destinations.
-/
def carried (T : Tunnel) (s : RosterSend) : List RosterDatagram :=
  (T.find s.1).toList.flatMap fun e => (destinations e.cfg e.session).map fun dest =>
    (e.id, s.2, dest)

theorem rosterDatagrams_append (out out' : List (SessionId × Event)) :
    rosterDatagrams (out ++ out') = rosterDatagrams out ++ rosterDatagrams out' :=
  List.filterMap_append

theorem rosterDatagrams_own (events : List Event) (id : SessionId) :
    rosterDatagrams (events.map fun x => (id, x)) =
      (sentOf events).filterMap (rosterDatagram id) := by
  unfold rosterDatagrams sentOf
  rw [List.filterMap_map, List.filterMap_filterMap]
  rfl

section

variable {C : SessionConfig} {E : SessionIo} {s : Session} {payload : List U8}

theorem sendPacket_rosters (id : SessionId)
    (hlength : payloadLengthOk .roster payload.length = true) (dest : Endpoint) :
    (sentOf (sendPacket C E s .roster payload dest).2.out).filterMap (rosterDatagram id) =
      (sentOf s.out).filterMap (rosterDatagram id) ++ [(id, payload, dest)] := by
  have hsent := (sendPacket_sentOne (C := C) (E := E) (s := s) dest hlength).1
  generalize (sendPacket C E s .roster payload dest).2 = s' at hsent ⊢
  cases hsent with
  | mk counters bytes _ =>
    rw [sentOf_append, List.filterMap_append]
    rfl

theorem sendEach_rosters (id : SessionId) (hlength : payloadLengthOk .roster payload.length = true)
    (dests : List Endpoint) :
    (sentOf (sendEach C E s .roster payload dests).out).filterMap (rosterDatagram id) =
      (sentOf s.out).filterMap (rosterDatagram id) ++ dests.map fun dest =>
      (id, payload, dest) := by
  induction dests generalizing s with
  | nil => exact (List.append_nil _).symm
  | cons dest rest ih =>
    have hrest := ih (s := (sendPacket C E s .roster payload dest).2)
    rw [sendPacket_rosters id hlength dest, List.append_assoc] at hrest
    exact hrest

theorem step_rosters (id : SessionId) (hlength : payloadLengthOk .roster payload.length = true) :
    (sentOf (step C E s (.sendRoster payload) now).out).filterMap (rosterDatagram id) =
      (destinations C s).map fun dest => (id, payload, dest) := by
  change (sentOf (sendToPeer C E { s with out := [] } .roster payload).out).filterMap _ = _
  unfold sendToPeer destinations
  dsimp only
  cases s.peerEndpoint with
  | none => exact sendEach_rosters id hlength C.candidates
  | some dest => exact sendPacket_rosters id hlength dest

theorem step_roster_endpoint :
    (step C E s (.sendRoster payload) now).peerEndpoint = s.peerEndpoint := by
  have heach : ∀ (dests : List Endpoint) (u : Session),
      (sendEach C E u .roster payload dests).peerEndpoint = u.peerEndpoint := by
    intro dests
    induction dests with
    | nil => exact fun u => rfl
    | cons dest rest ih => exact fun u => (ih _).trans (sendPacket_endpoint .roster payload dest)
  change (sendToPeer C E { s with out := [] } .roster payload).peerEndpoint = s.peerEndpoint
  unfold sendToPeer
  dsimp only
  cases s.peerEndpoint with
  | none => exact heach C.candidates _
  | some dest => exact sendPacket_endpoint .roster payload dest

end

theorem call_rosters (hlength : payloadLengthOk .roster payload.length = true) :
    rosterDatagrams (T.call io k (.sendRoster payload) now).out = rosterDatagrams T.out ++
      T.carried (k, payload) ∧
      (T.call io k (.sendRoster payload) now).carried = T.carried := by
  cases hfind : T.find k with
  | none =>
    rw [call_none hfind]
    unfold carried
    rw [hfind]
    exact ⟨(List.append_nil _).symm, rfl⟩
  | some e =>
    have hcalled := call_called io (.sendRoster payload) now hfind
    constructor
    · rw [hcalled.out, rosterDatagrams_append, rosterDatagrams_own, step_rosters e.id hlength]
      unfold carried
      rw [hfind]
      simp
    · funext s
      unfold carried
      rw [find_mapped (swap_cfg _) hcalled.sessions]
      cases hs : T.find s.1 with
      | none => rfl
      | some x =>
        have hdestinations : destinations (swap e.cfg.peerId
            (step e.cfg (io e.id) e.session (.sendRoster payload) now) x).cfg
            (swap e.cfg.peerId
              (step e.cfg (io e.id) e.session (.sendRoster payload) now) x).session =
              destinations x.cfg x.session := by
          rw [swap_cfg]
          unfold destinations swap
          by_cases hx : x.cfg.peerId = e.cfg.peerId
          · -- the one that was called: its endpoint stays
            have hsame : T.find s.1 = T.find k := by
              rw [← (find_some hs).2, hx, (find_some hfind).2]
            obtain rfl := Option.some.inj (hs.symm.trans (hsame.trans hfind))
            rw [if_pos rfl, step_roster_endpoint]
          · rw [if_neg hx]
        change [swap e.cfg.peerId (step e.cfg (io e.id) e.session (.sendRoster payload) now)
          x].flatMap _ = [x].flatMap _
        rw [List.flatMap_singleton, List.flatMap_singleton, hdestinations, swap_id]

theorem sendRosters_carried {sends : List RosterSend}
    (hlength : ∀ s ∈ sends, payloadLengthOk .roster s.2.length = true) :
    rosterDatagrams (T.sendRosters io now sends).out = rosterDatagrams T.out ++
      sends.flatMap T.carried ∧
      (T.sendRosters io now sends).carried = T.carried := by
  induction sends generalizing T with
  | nil => exact ⟨(List.append_nil _).symm, rfl⟩
  | cons s rest ih =>
    obtain ⟨hone, hsame⟩ := @call_rosters io T now s.1 s.2 (hlength s List.mem_cons_self)
    obtain ⟨hrest, hsame'⟩ := ih (T := T.call io s.1 (.sendRoster s.2) now)
      fun x hx => hlength x (List.mem_cons_of_mem s hx)
    rw [hsame, hone] at hrest
    refine ⟨?_, hsame'.trans hsame⟩
    rw [List.flatMap_cons, ← List.append_assoc]
    exact hrest

theorem call_no_rosters (hask : Asked a k op) (hop : ∀ payload, op ≠ .sendRoster payload) :
    rosterDatagrams (T.call io k op now).out = rosterDatagrams T.out := by
  cases hfind : T.find k with
  | none => rw [call_none hfind]
  | some e =>
    obtain ⟨-, rfl⟩ := find_some hfind
    rw [(call_called io op now hfind).out, rosterDatagrams_append, rosterDatagrams_own]
    refine (congrArg _ ?_).trans (List.append_nil _)
    obtain ⟨sent, hout, -, -, hnumbered⟩ := (hask.emits (io e.id) now).sent
    have hsent : sentOf (step e.cfg (io e.id) e.session op now).out = sent := hout
    rw [hsent, List.filterMap_eq_nil_iff]
    intro d hd
    obtain ⟨i, hi⟩ := List.mem_iff_getElem?.mp hd
    have hencoded := (hnumbered i d hi).2.1
    unfold rosterDatagram
    rw [if_neg]
    intro htype
    rw [htype] at hencoded
    exact hop d.payload hencoded

theorem callAll_no_rosters :
    rosterDatagrams (T.callAll io .poll now).out = rosterDatagrams T.out := by
  unfold callAll
  generalize T.sessions.map (·.cfg.peerId) = peers
  induction peers generalizing T with
  | nil => rfl
  | cons k rest ih =>
    have hask : Asked .runTimers k .poll := rfl
    exact (ih (T := T.call io k .poll now)).trans
      (call_no_rosters hask fun payload hpayload => by cases hpayload)

/-- What the publisher lists in a turn is for connected sessions, and each of them carries it out;
no other roster is sent. -/
structure Carries (io : SessionId → SessionIo) (x : Turn) : Prop where
  listed : ∀ s ∈ rosterSends io x, s.1 ∈ x.after.connected
  sent : rosterDatagrams x.after.out = (rosterSends io x).flatMap x.after.carried

theorem carried_kept (hi : Invariant T) (hi' : Invariant T')
    (hkeep : ∀ x ∈ T.sessions, x.session.state = .connected → x ∈ T'.sessions) {s : RosterSend}
    (hk : s.1 ∈ T.connected) : T'.carried s = T.carried s := by
  obtain ⟨e, he, hstate, hkey⟩ := mem_connected.mp hk
  unfold carried
  rw [← hkey, find_of_mem hi.keys he, find_of_mem hi'.keys (hkeep e he hstate)]

theorem runTimers_carried (hi : Invariant T) (hw : Written T.roster) (hout : T.out = []) :
    (∀ s ∈ ((T.callAll io .poll now).roster.run now (T.callAll io .poll now).connected).1,
      s.1 ∈ (T.runTimers io now).connected) ∧
    rosterDatagrams (T.runTimers io now).out =
      ((T.callAll io .poll now).roster.run now (T.callAll io .poll now).connected).1.flatMap
        (T.runTimers io now).carried := by
  have hpoll : Effects io now .runTimers T (T.callAll io .poll now) :=
    foldl_call_effects (by simp) _
  have hrun := hpoll.trans runRoster_effects
  have hran := Effects.invariant hrun hi
  have herased := Effects.invariant (hrun.trans (eraseExpired_effects hran)) hi
  have hsessions : SameConnected (T.callAll io .poll now) (T.runTimers io now) :=
    runTimers_connected hi
  have hconnected := hsessions.connected
  have hquiet : rosterDatagrams (T.callAll io .poll now).out = [] := by
    rw [callAll_no_rosters, hout]
    rfl
  have hpolled : Written (T.callAll io .poll now).roster := written_rule.foldl_call hw _
  have hlast : (T.runTimers io now).out = ((T.callAll io .poll now).runRoster io now).out :=
    (capped_capped herased).out.trans (foldl_erase_out _)
  -- erasing takes no connected session, so each finds the same session afterwards
  have hkept : ∀ s : RosterSend, s.1 ∈ ((T.callAll io .poll now).runRoster io now).connected →
      (T.runTimers io now).carried s = ((T.callAll io .poll now).runRoster io now).carried s := by
    intro s hs
    have hcapped : Effects io now .runTimers _ _ := capped_effects herased
    refine carried_kept hran (hcapped.invariant herased) ?_ hs
    intro x hx hstate
    exact mem_capped_of_connected herased (mem_eraseExpired_of_connected hran hx hstate) hstate
  have hsame : SameConnected ((T.callAll io .poll now).runRoster io now) (T.runTimers io now) :=
    (eraseExpired_connected hran).trans (capped_connected herased)
  rw [hlast]
  generalize T.runTimers io now = V at hconnected hlast hkept hsame ⊢
  generalize T.callAll io .poll now = A at hconnected hquiet hpolled hkept hsame ⊢
  have hsent : ∀ s ∈ (A.roster.run now A.connected).1,
      s.1 ∈ A.connected ∧ (A.roster.run now A.connected).2.payload = some s.2 := by
    intro s hs
    cases hself : A.roster.self with
    | none =>
      rw [RosterPublisher.run_none hself] at hs
      cases hs
    | some self => exact (RosterPublisher.run_ran hself now A.connected).sends s hs
  have hcarried := @sendRosters_carried io { A with roster := (A.roster.run now A.connected).2 } now
    (A.roster.run now A.connected).1 fun s hs =>
    payload_length (written_rule.run _ _ _ hpolled) (hsent s hs).2
  have hshape : A.runRoster io now =
    ({ A with roster := (A.roster.run now A.connected).2 } : Tunnel).sendRosters io now
    (A.roster.run now A.connected).1 := rfl
  rw [← hshape] at hcarried
  refine ⟨fun s hs => (hconnected s.1).mpr (hsent s hs).1, ?_⟩
  rw [hcarried.1, show rosterDatagrams
    ({ A with roster := (A.roster.run now A.connected).2 } : Tunnel).out = [] from hquiet,
    List.nil_append]
  apply List.flatMap_congr
  intro s hs
  rw [hkept s ((hsame.connected s.1).mp ((hconnected s.1).mpr (hsent s hs).1)), hcarried.2]

theorem perform_carries (hi : Invariant T) (hw : Written T.roster) (a : Action) :
    Carries io ⟨now, a, T, T.perform io a now⟩ := by
  have hclear := hi.cleared
  by_cases htimers : a = .runTimers
  · subst htimers
    have hcarried := @runTimers_carried io { T with out := [] } now hclear hw rfl
    constructor
    · rw [rosterSends_timers]
      exact hcarried.1
    · rw [rosterSends_timers]
      exact hcarried.2
  · have hparts : Parts io now a { T with out := [] } (T.perform io a now) := perform_parts hi hw a
    have hquiet : rosterDatagrams (T.perform io a now).out = [] := by
      generalize T.perform io a now = T' at hparts ⊢
      induction hparts with
      | refl => rfl
      | tail _ hlast ih =>
        cases hlast with
        | called e op _ hask _ =>
          rw [call_no_rosters hask]
          · exact ih
          · rintro payload rfl
            exact htimers hask.1
        | counted c => exact ih
        | countedFor k c => exact ih
        | erased e _ _ => exact ih
        | registered => exact ih
        | inserted request epoch nonce _ _ => exact ih
        | settings roster localVip _ => exact ih
    constructor
    · rw [rosterSends_none htimers]
      intro s hs
      cases hs
    · rw [rosterSends_none htimers]
      exact hquiet

theorem Period.turns (hp : Period io l t T) : ∀ x ∈ l, Carries io x ∧ Invariant x.after := by
  induction hp with
  | opened self now _ _ _ =>
    intro x hx
    cases hx
  | @turn l t T a now hp ht ha ih =>
    obtain ⟨h, hr⟩ := hp.run
    intro x hx
    rcases List.mem_append.mp hx with hx | hx
    · exact ih x hx
    · rw [List.mem_singleton.mp hx]
      exact ⟨perform_carries (run_invariant hr) (written_rule.run_roster hr) a,
        run_invariant (.turn a now hr ht)⟩

/-- In some turn the session handed over the payload for each of its destinations, and no other
roster; it was connected then, and since then it has handed over no roster and has not changed its
state. -/
def LastSent (l : List Turn) (e : Entry) (payload : List U8) : Prop :=
  ∃ l₁ x l₂ y, l = l₁ ++ x :: l₂ ∧ y ∈ x.after.sessions ∧ y.id = e.id ∧
    y.session.state = .connected ∧
    (∀ dest ∈ destinations y.cfg y.session, (e.id, payload, dest) ∈ rosterDatagrams x.after.out) ∧
    (∀ d ∈ rosterDatagrams x.after.out, d.1 = e.id → d.2.1 = payload) ∧
    ∀ z ∈ l₂, (∀ d ∈ rosterDatagrams z.after.out, d.1 ≠ e.id) ∧ Unmoved e.id z.after.out

theorem Carries.listed_for {x : Turn} (hc : Carries io x) (hi : Invariant x.after)
    (hthere : ConnectedIn e x.after) {d : RosterDatagram} (hd : d ∈ rosterDatagrams x.after.out)
    (hid : d.1 = e.id) :
    (e.cfg.peerId, d.2.1) ∈ rosterSends io x := by
  obtain ⟨y, hy, hyid, hykey, -⟩ := hthere
  rw [hc.sent] at hd
  obtain ⟨s, hs, hd⟩ := List.mem_flatMap.mp hd
  obtain ⟨w, hw, hd⟩ := List.mem_flatMap.mp hd
  obtain ⟨dest, -, rfl⟩ := List.mem_map.mp hd
  obtain ⟨hw, hwkey⟩ := find_some (Option.mem_toList.mp hw)
  obtain rfl := hi.same_id hw hy (hid.trans hyid.symm)
  rw [← hykey, hwkey]
  exact hs

theorem LastListed.sent (hp : Period io l t T) {payload : List U8} (h : LastListed io l e payload)
    (hone : ∀ x ∈ l, ∀ p p', (e.cfg.peerId, p) ∈ rosterSends io x →
      (e.cfg.peerId, p') ∈ rosterSends io x → p = p') :
    LastSent l e payload := by
  obtain ⟨l₁, x, l₂, rfl, hlisted, hthere, hsince⟩ := h
  have hx : x ∈ l₁ ++ x :: l₂ := List.mem_append_right _ List.mem_cons_self
  obtain ⟨hcarries, hi⟩ := hp.turns x hx
  have hthere' := hthere
  obtain ⟨y, hy, hid, hkey, hstate⟩ := hthere'
  refine ⟨l₁, x, l₂, y, rfl, hy, hid, hstate, ?_, ?_, ?_⟩
  · intro dest hdest
    rw [hcarries.sent, ← hid]
    refine List.mem_flatMap.mpr ⟨_, hlisted, ?_⟩
    unfold carried
    rw [← hkey, find_of_mem hi.keys hy]
    simpa using hdest
  · intro d hd hown
    exact hone x hx _ _ (hcarries.listed_for hi hthere hd hown) hlisted
  · intro z hz
    obtain ⟨hnone, hthere, hunmoved⟩ := hsince z hz
    obtain ⟨hcarries, hi⟩ := hp.turns z (List.mem_append_right _ (List.mem_cons_of_mem x hz))
    exact ⟨fun d hd hown => hnone _ (hcarries.listed_for hi hthere hd hown), hunmoved⟩

/-! ## The two sides -/

/-- After the turn of the timers a connected session has last been sent what the roster says now. -/
theorem Period.served (hp : Period io l t T) {l₀ : List Turn} {x : Turn} (hl : l = l₀ ++ [x])
    (haction : x.action = .runTimers) (he : e ∈ T.sessions)
    (hstate : e.session.state = .connected) :
    ∃ self payload, T.roster.self = some self ∧
      encodeRoster T.roster.generation (RosterPublisher.build self T.roster.peers T.connected).count
        (RosterPublisher.build self T.roster.peers T.connected).members rosterMaxPayload =
          some payload ∧
      LastSent l e payload := by
  have hcurrent := hp.current
  have hclean : T.roster.dirty = false := by
    cases hp with
    | opened self now _ _ _ => simp at hl
    | @turn l' t' T' a _ hbefore _ _ =>
      obtain ⟨-, hx⟩ := List.append_inj' hl rfl
      obtain rfl := (List.cons.inj hx).1
      dsimp only at haction
      subst haction
      obtain ⟨h, hr⟩ := hbefore.run
      have hi := (run_invariant hr).cleared
      have hroster := @runTimers_roster io _ t hi
      have hpolled : Current io l' (({ T' with out := [] } : Tunnel).callAll io .poll t) :=
        hbefore.current.foldl_call hi _
      obtain ⟨self, hself, -⟩ := hpolled.proper.self
      have hran := RosterPublisher.run_ran hself t
        (({ T' with out := [] } : Tunnel).callAll io .poll t).connected
      exact (congrArg RosterPublisher.dirty hroster).trans hran.clean
  have hk : e.cfg.peerId ∈ T.connected := mem_connected.mpr ⟨e, he, hstate, rfl⟩
  obtain ⟨self, hself, -⟩ := hcurrent.proper.self
  obtain ⟨ks, hks, hlast⟩ := hcurrent.content hclean self hself
  obtain ⟨-, payload, hpayload, hsent⟩ := hcurrent.reached e he hstate (hcurrent.served hclean _ hk)
  have hbuild : RosterPublisher.build self T.roster.peers ks =
    RosterPublisher.build self T.roster.peers T.connected :=
    build_congr hks
  refine ⟨self, payload, hself, ?_, hsent.sent hp ?_⟩
  swap
  · intro x hx p p' hsend hsend'
    have hpresent := (hp.presents x hx).present
    exact Option.some.inj ((hpresent _ hsend).symm.trans (hpresent _ hsend'))
  obtain ⟨c, hc, hencode⟩ := Option.bind_eq_some_iff.mp hpayload
  have hsame : c = RosterPublisher.build self T.roster.peers T.connected :=
    Option.some.inj (hc.symm.trans (hlast.trans (congrArg some hbuild)))
  rw [← hsame]
  exact hencode

/-- Host and player agree on the rosters. In a period of the host every roster that the publisher
lists is carried out by the connected session it is for, and no other is sent; a number names one
payload and does not fall, each turn lists a session once at most where its next time fits the
clock, and after the timers every connected session has last sent the present roster. A player,
whatever it receives and in whatever order, takes rosters whose numbers do not fall, and writes down
the first and each of a greater number. -/
theorem rosters_consistent :
    (∀ (io : SessionId → SessionIo) (l : List Turn) (t : Millis) (T : Tunnel), Period io l t T →
      (∀ x ∈ l, Carries io x) ∧
      (changes l < 2 ^ 32 → (l.flatMap (rosterSends io)).Pairwise Follows) ∧
      (∀ x ∈ l, x.now + rosterIntervalMs < 2 ^ 64 → ((rosterSends io x).map (·.1)).Nodup) ∧
      ∀ l₀ x, l = l₀ ++ [x] → x.action = .runTimers →
        ∀ e ∈ T.sessions, e.session.state = .connected →
        ∃ self payload, T.roster.self = some self ∧
          encodeRoster T.roster.generation
            (RosterPublisher.build self T.roster.peers T.connected).count
            (RosterPublisher.build self T.roster.peers T.connected).members rosterMaxPayload =
              some payload ∧
          LastSent l e payload) ∧
    ∀ (C : SessionConfig) (E : SessionIo) (h : List Peer.Entry) (t : Millis) (s : Session),
      Execution C E h t s →
      (takenIn C E h).Pairwise (fun r r' => r.generation ≤ r'.generation) ∧
      ∀ h₁ e h₂, h = h₁ ++ e :: h₂ → rostersOf e.after.out =
        (taken C E e.before e.op e.now).toList.filter fun r =>
        (takenIn C E h₁).all (·.generation < r.generation) := by
  constructor
  · intro io l t T hp
    refine ⟨fun x hx => (hp.turns x hx).1, fun hfew => (hp.editions hfew).follow,
      fun x hx => (hp.presents x hx).once, ?_⟩
    intro l₀ x hl ha e he hstate
    exact hp.served hl ha he hstate
  · intro C E h t s hx
    refine ⟨(execution_newest hx).ascending, ?_⟩
    rintro h₁ e h₂ rfl
    obtain ⟨t', hbefore, hafter⟩ := execution_call hx
    rw [hafter]
    exact (execution_newest hbefore).logged e.op e.now

theorem play_period (calls : List (Action × Millis)) (hp : Period io l t T) (ho : InOrder t calls)
    (hb : ∀ c ∈ calls, Between c.1) : Period io (play io l T calls).1 (lastCall t calls)
    (play io l T calls).2 := by
  induction calls generalizing l t T with
  | nil => exact hp
  | cons c rest ih =>
    exact ih (.turn c.1 c.2 hp ho.1 (hb c List.mem_cons_self)) ho.2 fun x hx =>
      hb x (List.mem_cons_of_mem c hx)

def guestHello (type : PacketType) (number : U32) (nonce : Nonce) : List U8 :=
  (buildPacket type ⟨2, 5, number⟩ (encodeHello ⟨nonce, 0x0A640002⟩) maxDatagram).getD []

/-- The host opens its room, and one guest comes and connects. -/
def guestRoom : Tunnel := ({} : Tunnel).perform roomIo (.startRoster ⟨1, 0x0A640001, [0x41]⟩) 0

def guestCalls : List (Action × Millis) :=
  [(.setRosterPeers [⟨2, 0x0A640002, [0x42]⟩], 0),
    (.createSession (roomRequest 2 0x0A640002) [7] [nonceOf 1], 0),
   (.startPunch 2, 0), (.runTimers, 1),
   (.onDatagram roamHome (guestHello .hello 0 (nonceOf 9)), 10),
   (.onDatagram roamHome (guestHello .helloAck 1 (nonceOf 1)), 20), (.runTimers, 30),
   (.runTimers, 5030)]

def guestTurns : List Turn × Tunnel := play roomIo [] guestRoom guestCalls

theorem guest_period : Period roomIo guestTurns.1 5030 guestTurns.2 := by
  have hopened : Period roomIo [] 0 guestRoom := .opened _ 0 (.start 0) le_rfl (by decide)
  refine play_period guestCalls hopened (by simp [InOrder, guestCalls]) ?_
  intro c hc
  simp only [guestCalls, List.mem_cons, List.not_mem_nil, or_false] at hc
  rcases hc with rfl | rfl | rfl | rfl | rfl | rfl | rfl | rfl
  · exact ⟨by decide, by decide⟩
  all_goals trivial

/-- The guest is sent the second roster twice, five seconds apart, and has nothing older. -/
theorem guest_has_roster : guestTurns.2.connected = [2] ∧
    (guestTurns.1.flatMap fun x => rosterDatagrams x.after.out).map
      (fun d => generationOf d.2.1) = [2, 2] ∧
    ∀ e ∈ guestTurns.2.sessions, e.session.state = .connected →
      ∃ payload, generationOf payload = 2 ∧ LastSent guestTurns.1 e payload := by
  refine ⟨by decide +kernel, by decide +kernel, ?_⟩
  intro e he hstate
  have hlast : guestTurns.1.getLast?.map (·.action) = some .runTimers := by decide +kernel
  obtain ⟨x, hx, haction⟩ := Option.map_eq_some_iff.mp hlast
  obtain ⟨l₀, hl⟩ := List.getLast?_eq_some_iff.mp hx
  obtain ⟨self, payload, -, hencode, hsent⟩ :=
    (rosters_consistent.1 roomIo _ _ _ guest_period).2.2.2 l₀ x hl haction e he hstate
  refine ⟨payload, ?_, hsent⟩
  rw [encoded_generation hencode]
  decide +kernel

/-! ## At the end of the clock -/

/-- The same room 51 seconds before the clock comes round, with the timers once more later on. -/
def lateStart : Millis := 2 ^ 64 - 51000

def lateCalls : List (Action × Millis) :=
  guestCalls.map (fun c => (c.1, c.2 + lateStart)) ++ [(.runTimers, 2 ^ 64 - 15000)]

def lateRoom : Tunnel :=
  ({} : Tunnel).perform roomIo (.startRoster ⟨1, 0x0A640001, [0x41]⟩) lateStart

def lateTurns : List Turn × Tunnel := play roomIo [] lateRoom lateCalls

theorem late_period : Period roomIo lateTurns.1 (2 ^ 64 - 15000) lateTurns.2 := by
  have hopened : Period roomIo [] lateStart lateRoom :=
    .opened _ _ (.start 0) (Nat.zero_le _) (by decide)
  refine play_period lateCalls hopened (by simp [InOrder, lateCalls, guestCalls, lateStart]) ?_
  intro c hc
  simp only [lateCalls, guestCalls, List.map_cons, List.map_nil, List.cons_append, List.nil_append,
    List.mem_cons,
    List.not_mem_nil, or_false] at hc
  rcases hc with rfl | rfl | rfl | rfl | rfl | rfl | rfl | rfl | rfl
  · exact ⟨by decide, by decide⟩
  all_goals trivial

/-- Where the next period is past the end of the clock it is due at once: the last run sends the
guest its roster twice. -/
theorem roster_sent_twice : ¬∀ (io : SessionId → SessionIo) (l : List Turn) (t : Millis)
    (T : Tunnel), Period io l t T →
    ∀ x ∈ l, ((rosterSends io x).map (·.1)).Nodup := by
  intro h
  have hlast : lateTurns.1.getLast?.map (fun x => (rosterSends roomIo x).map (·.1)) =
    some [2, 2] := by
    decide +kernel
  obtain ⟨x, hx, hsends⟩ := Option.map_eq_some_iff.mp hlast
  have honce := h roomIo _ _ _ late_period x (List.mem_of_getLast? hx)
  rw [hsends] at honce
  exact absurd honce (by decide)

end Sangtachi.Tunnel
