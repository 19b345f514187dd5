import Sangtachi.Tunnel.Accounting
import Sangtachi.Tunnel.Rosters

/-! # Every session of the tunnel

What each call of a session keeps holds of every session in the table, and of everything the
sessions report. Which calls there are is said by the public operation. The roster publisher hears
of every session that becomes connected or leaves that state. -/
namespace Sangtachi.Tunnel

open Sangtachi.BigEndian Sangtachi.Packet Sangtachi.Peer

variable {io : SessionId → SessionIo} {T T' : Tunnel} {e : Entry} {now t : Millis} {k : U32}
  {op : Op} {a : Action}

/-! ## The roster -/

def heard (k : U32) (r : RosterPublisher) (x : SessionState × SessionState) : RosterPublisher :=
  if (x.1 = .connected) ≠ (x.2 = .connected) then r.onConnectedChange k (x.2 = .connected) else r

theorem onEvent_roster (x : Event) : (onEvent now e T x).roster =
    (transitionsOf [x]).foldl (heard e.cfg.peerId) T.roster := by
  cases x with
  | sent d => rfl
  | delivered inner => rfl
  | line l => rfl
  | retired epoch => rfl
  | transition before after =>
    change (T.onTransition e before after).roster = heard e.cfg.peerId T.roster (before, after)
    unfold onTransition heard
    dsimp only
    by_cases hchanged : (before = .connected) ≠ (after = .connected)
    · rw [if_pos hchanged, if_pos hchanged]
      split_ifs <;> rfl
    · rw [if_neg hchanged, if_neg hchanged]
      split_ifs <;> rfl

theorem onEvents_roster (events : List Event) : (events.foldl (onEvent now e) T).roster =
    (transitionsOf events).foldl (heard e.cfg.peerId) T.roster := by
  induction events generalizing T with
  | nil => rfl
  | cons x rest ih =>
    have hcons : x :: rest = [x] ++ rest := rfl
    rw [List.foldl_cons, ih, onEvent_roster, hcons, transitionsOf_append, List.foldl_append]

/-- The publisher hears of the session exactly when it becomes connected or leaves that state. -/
theorem call_roster (hfind : T.find k = some e) : (T.call io k op now).roster =
    heard k T.roster (e.session.state, (step e.cfg (io e.id) e.session op now).state) := by
  obtain ⟨-, hpeer⟩ := find_some hfind
  unfold call
  rw [hfind]
  dsimp only
  have htransitions := step_transitions (C := e.cfg) (E := io e.id) e.session op now
  generalize step e.cfg (io e.id) e.session op now = s' at htransitions ⊢
  change (s'.out.foldl (onEvent now e) _).roster = _
  rw [onEvents_roster, htransitions, hpeer]
  unfold move
  by_cases hsame : s'.state = e.session.state
  · rw [if_pos hsame, hsame]
    unfold heard
    exact (if_neg (by simp)).symm
  · rw [if_neg hsame]
    rfl

theorem call_roster_same (hstate : ∀ e, T.find k = some e →
    (step e.cfg (io e.id) e.session op now).state = e.session.state) :
    (T.call io k op now).roster = T.roster := by
  cases hfind : T.find k with
  | none => rw [call_none hfind]
  | some e =>
    rw [call_roster hfind, hstate e hfind]
    unfold heard
    exact if_neg (by simp)

theorem step_roster_state (s : Session) (C : SessionConfig) (E : SessionIo) (payload : List U8) :
    (step C E s (.sendRoster payload) now).state = s.state :=
  (sendToPeer_same (s := { s with out := [] }) (by decide) payload).state

theorem sendRosters_roster (sends : List RosterSend) :
    (T.sendRosters io now sends).roster = T.roster := by
  induction sends generalizing T with
  | nil => rfl
  | cons x rest ih =>
    have hone : (T.call io x.1 (.sendRoster x.2) now).roster = T.roster :=
      call_roster_same fun e _ => step_roster_state e.session e.cfg (io e.id) x.2
    exact (ih (T := T.call io x.1 (.sendRoster x.2) now)).trans hone

theorem runRoster_roster : (T.runRoster io now).roster = (T.roster.run now T.connected).2 :=
  sendRosters_roster _

theorem capped_roster (hi : Invariant T) : T.capped.roster = T.roster := by
  refine enforceRetentionCap_induct (P := fun T T' => T'.roster = T.roster) (fun T => rfl) ?_ hi _
  intro T e T' _ _ _ hrest
  exact hrest

theorem foldl_erase_roster (l : List Entry) : (l.foldl erase T).roster = T.roster := by
  induction l generalizing T with
  | nil => rfl
  | cons e l ih => exact ih

theorem Invariant.republished {r : RosterPublisher} (hi : Invariant T) :
    Invariant { T with roster := r } :=
  ⟨hi.keys, hi.ids, hi.fresh, hi.stamped, hi.own, hi.routable, hi.slots⟩

theorem Invariant.registerEnded (hi : Invariant T) : Invariant (T.registerEnded now) :=
  hi.mapped registered_same rfl rfl rfl

theorem runTimers_roster (hi : Invariant T) : (T.runTimers io now).roster =
    ((T.callAll io .poll now).roster.run now (T.callAll io .poll now).connected).2 := by
  have hpoll : Effects io now .runTimers T (T.callAll io .poll now) :=
    foldl_call_effects (by simp) _
  have hrun := hpoll.trans runRoster_effects
  have herase := hrun.trans (eraseExpired_effects (Effects.invariant hrun hi))
  refine (capped_roster (Effects.invariant herase hi)).trans ?_
  exact (foldl_erase_roster _).trans runRoster_roster

structure RosterRule (R : RosterPublisher → Prop) : Prop where
  fresh : R {}
  start : ∀ r self, R r → R (r.start self)
  stop : ∀ r, R r → R r.stop
  peers : ∀ r peers, R r → R (r.setPeers peers)
  changed : ∀ r k entered, R r → R (r.onConnectedChange k entered)
  run : ∀ r now connected, R r → R (r.run now connected).2

variable {R : RosterPublisher → Prop}

theorem RosterRule.heard (hk : RosterRule R) (h : R T.roster) (x : SessionState × SessionState) :
    R (heard k T.roster x) := by
  unfold Tunnel.heard
  split_ifs
  · exact hk.changed _ _ _ h
  · exact h

theorem RosterRule.call (hk : RosterRule R) (h : R T.roster) : R (T.call io k op now).roster := by
  cases hfind : T.find k with
  | none =>
    rw [call_none hfind]
    exact h
  | some e =>
    rw [call_roster hfind]
    exact hk.heard h _

theorem RosterRule.foldl_call (hk : RosterRule R) (h : R T.roster) (peers : List U32) :
    R (peers.foldl (fun T peerId => T.call io peerId op now) T).roster := by
  induction peers generalizing T with
  | nil => exact h
  | cons k rest ih => exact ih (hk.call h)

theorem RosterRule.perform (hk : RosterRule R) (hi : Invariant T) (h : R T.roster) (a : Action) :
    R (T.perform io a now).roster := by
  have hclear := hi.cleared
  have h' : R ({ T with out := [] } : Tunnel).roster := h
  unfold Tunnel.perform
  generalize ({ T with out := [] } : Tunnel) = U at hclear h' ⊢
  cases a with
  | createSession request epochDraws nonceDraws =>
    have hc := createSession_cases U request epochDraws nonceDraws now
    change R (U.createSession request epochDraws nonceDraws now).2.roster
    generalize U.createSession request epochDraws nonceDraws now = result at hc ⊢
    cases hc with
    | refused _ => exact h'
    | undrawn _ => exact h'
    | created epoch nonce _ _ => exact h'
  | onDatagram source datagram =>
    have hd := onDatagram_cases io U source datagram now
    change R (U.onDatagram io source datagram now).roster
    generalize U.onDatagram io source datagram now = V at hd ⊢
    cases hd with
    | malformed err _ => exact h'
    | unknown header payload _ _ => exact h'
    | retired header payload e _ _ _ => exact h'
    | ended header payload e _ _ _ _ => exact h'
    | received header payload e _ hfind _ _ =>
      rw [capped_roster (call_invariant hclear)]
      exact hk.call h'
  | sendData inner =>
    have hd := sendData_cases io U inner now
    change R (U.sendData io inner now).2.roster
    generalize U.sendData io inner now = result at hd ⊢
    cases hd with
    | dropped c => exact h'
    | notConnected e _ _ => exact h'
    | sent e outcome _ _ _ => exact hk.call h'
  | runTimers =>
    change R (U.runTimers io now).roster
    rw [runTimers_roster hclear]
    exact hk.run _ _ _ (hk.foldl_call h' _)
  | closeAll =>
    have hclose : Effects io now .closeAll U (U.callAll io .closeByUser now) :=
      foldl_call_effects (by simp) _
    change R (U.callAll io .closeByUser now).capped.roster
    rw [capped_roster (Effects.invariant hclose hclear)]
    exact hk.foldl_call h' _
  | leaveRoom => exact hk.stop _ (hk.foldl_call h' _)
  | startPunch peerId => exact hk.call h'
  | setLocalVirtualIp virtualIp => exact h'
  | startRoster self => exact hk.start _ _ h'
  | setRosterPeers peers => exact hk.peers _ _ h'

theorem RosterRule.run_roster {h : List Turn} (hk : RosterRule R) (hr : Run io h t T) :
    R T.roster := by
  induction hr with
  | start t => exact hk.fresh
  | turn a now hr _ ih => exact hk.perform (run_invariant hr) ih a

/-- The last roster was made of some members. -/
def Written (r : RosterPublisher) : Prop :=
  ∀ c, r.last = some c → ∃ self peers connected, c = RosterPublisher.build self peers connected

theorem written_rule : RosterRule Written where
  fresh := by
    intro c hc
    cases hc
  start := by
    intro r self _ c hc
    exact ⟨self, [], [], (Option.some.inj hc).symm⟩
  stop := by
    intro r _ c hc
    cases hc
  peers r peers h := h
  changed := by
    intro r k entered h
    unfold RosterPublisher.onConnectedChange
    split_ifs <;> exact h
  run := by
    intro r now connected h c hc
    cases hself : r.self with
    | none =>
      rw [RosterPublisher.run_none hself] at hc
      exact h c hc
    | some self =>
      have hran := RosterPublisher.run_ran hself now connected
      rcases hran.last with hsame | ⟨self', -, hbuilt⟩
      · exact h c (hsame.symm.trans hc)
      · rw [hbuilt] at hc
        exact ⟨self', r.peers, connected, (Option.some.inj hc).symm⟩

/-! ## The sessions -/

/-- The calls of the session of a peer that a public operation makes, and what they carry. -/
def Asked (a : Action) (peerId : U32) : Op → Prop
  | .startPunch => a = .startPunch peerId
  | .poll => a = .runTimers
  | .receive p => p.header.peerId = peerId ∧ ∃ datagram, a = .onDatagram p.source datagram ∧
      checkCommon datagram = .ok (p.header, p.payload)
  | .sendData inner => a = .sendData inner ∧ dataMinPayload ≤ inner.length ∧ inner.length ≤ maxInner
  | .sendRoster payload =>
    a = .runTimers ∧ ∃ r : RosterPublisher, Written r ∧ r.payload = some payload
  | .closeByUser => a = .closeAll ∨ a = .leaveRoom

/-- What a public operation makes of the publisher itself, besides what it hears of the sessions. -/
inductive Republished (now : Millis) (T : Tunnel) : Action → RosterPublisher → Prop where
  | same (a : Action) : Republished now T a T.roster
  | run : Republished now T .runTimers (T.roster.run now T.connected).2
  | start (self : RosterPeer) : Republished now T (.startRoster self) (T.roster.start self)
  | peers (peers : List RosterPeer) :
    Republished now T (.setRosterPeers peers) (T.roster.setPeers peers)
  | stop : Republished now T .leaveRoom T.roster.stop

/-- What the public operation `a` is made of, with what each call of a session carries. -/
inductive Part (io : SessionId → SessionIo) (now : Millis) (a : Action) :
    Tunnel → Tunnel → Prop where
  | called (T : Tunnel) (e : Entry) (op : Op) : T.find e.cfg.peerId = some e →
    Asked a e.cfg.peerId op →
      (∀ p, op = .receive p → e.session.active = true ∧
        T.retired.contains p.header.sessionEpoch now = false) →
      Part io now a T (T.call io e.cfg.peerId op now)
  | counted (T : Tunnel) (c : Counter) : Part io now a T (T.count c)
  | countedFor (T : Tunnel) (k : U32) (c : Counter) : Part io now a T (T.countFor k c)
  | erased (T : Tunnel) (e : Entry) : T.find e.cfg.peerId = some e → e.session.active = false →
      Part io now a T (T.erase e)
  | registered (T : Tunnel) : Part io now a T (T.registerEnded now)
  | inserted (T : Tunnel) (request : NewSession) (epoch : U32) (nonce : Nonce) :
      (∃ epochDraws nonceDraws, a = .createSession request epochDraws nonceDraws) →
      T.admits request = true →
      Part io now a T (T.insert (T.newEntry request epoch nonce now))
  | settings (T : Tunnel) (roster : RosterPublisher) (localVip : Option U32) :
    Republished now T a roster →
      Part io now a T { T with roster := roster, localVip := localVip }

abbrev Parts (io : SessionId → SessionIo) (now : Millis) (a : Action) : Tunnel → Tunnel → Prop :=
  Relation.ReflTransGen (Part io now a)

theorem Part.effect (h : Part io now a T T') : Effect io now a T T' := by
  cases h with
  | called e op hfind hask hactive =>
    refine .called T e op hfind ?_
    rintro p rfl
    exact ⟨hask.2, hask.1, hactive p rfl⟩
  | counted c => exact .counted T c
  | countedFor k c => exact .countedFor T k c
  | erased e hfind hended => exact .erased T e hfind hended
  | registered => exact .registered T
  | inserted request epoch nonce ha hadmits => exact .inserted T request epoch nonce ha hadmits
  | settings roster localVip _ => exact .settings T roster localVip

theorem Parts.invariant (h : Parts io now a T T') (hi : Invariant T) : Invariant T' := by
  induction h with
  | refl => exact hi
  | tail _ hlast ih => exact hlast.effect.invariant ih

theorem call_parts (hop : ∀ p, op ≠ .receive p) (hask : Asked a k op) :
    Parts io now a T (T.call io k op now) := by
  cases hfind : T.find k with
  | none => rw [call_none hfind]
  | some e =>
    obtain ⟨-, rfl⟩ := find_some hfind
    exact .single (.called T e op hfind hask fun p hp => absurd hp (hop p))

theorem foldl_call_parts (hop : ∀ p, op ≠ .receive p) (hask : ∀ k, Asked a k op)
    (peers : List U32) :
    Parts io now a T (peers.foldl (fun T peerId => T.call io peerId op now) T) := by
  induction peers generalizing T with
  | nil => exact .refl
  | cons k rest ih => exact (call_parts hop (hask k)).trans ih

theorem sendRosters_parts (sends : List RosterSend)
    (hask : ∀ x ∈ sends, Asked a x.1 (.sendRoster x.2)) :
    Parts io now a T (T.sendRosters io now sends) := by
  induction sends generalizing T with
  | nil => exact .refl
  | cons x rest ih =>
    have hone : Parts io now a T (T.call io x.1 (.sendRoster x.2) now) :=
      call_parts (by simp) (hask x List.mem_cons_self)
    exact hone.trans
      (ih (T := T.call io x.1 (.sendRoster x.2) now) fun y hy => hask y (List.mem_cons_of_mem x hy))

theorem runRoster_parts (hw : Written T.roster) :
    Parts io now .runTimers T (T.runRoster io now) := by
  refine .head (.settings T (T.roster.run now T.connected).2 T.localVip .run)
    (sendRosters_parts _ ?_)
  intro x hx
  change x ∈ (T.roster.run now T.connected).1 at hx
  cases hself : T.roster.self with
  | none =>
    rw [RosterPublisher.run_none hself] at hx
    cases hx
  | some self =>
    have hran := RosterPublisher.run_ran hself now T.connected
    exact ⟨rfl, _, written_rule.run _ _ _ hw, (hran.sends x hx).2⟩

theorem foldl_erase_parts (hi : Invariant T) {l : List Entry} (hl : l.Sublist T.sessions)
    (hended : ∀ x ∈ l, x.session.active = false) : Parts io now a T (l.foldl erase T) := by
  refine foldl_erase_induct (P := Parts io now a) (fun _ => .refl) ?_ hi hl hended
  intro T e T' hi he hended hrest
  exact .head (.erased T e (find_of_mem hi.keys he) hended) hrest

theorem eraseExpired_parts (hi : Invariant T) : Parts io now a T (T.eraseExpired now) :=
  foldl_erase_parts hi List.filter_sublist (expired_ended hi)

theorem capped_parts (hi : Invariant T) : Parts io now a T T.capped := by
  refine enforceRetentionCap_induct (P := Parts io now a) (fun T => .refl) ?_ hi _
  intro T e T' hi holdest hended hrest
  exact .head (.erased T e (find_of_mem hi.keys holdest.1) hended) hrest

/-- What the tunnel checks before it hands an inner packet to a session. -/
structure Sendable (T : Tunnel) (inner : List U8) (e : Entry) : Prop where
  min : dataMinPayload ≤ inner.length
  max : inner.length ≤ maxInner
  ipv4 : read8 inner 0 >>> 4 = 4
  source : T.localVip = some (read32 inner 12)
  entry : e ∈ T.sessions
  route : T.route (read32 inner 16) = some e.id
  connected : e.session.state = .connected

theorem sendData_sendable (io : SessionId → SessionIo) (T : Tunnel) (inner : List U8)
    (now : Millis) :
    (∃ c, T.sendData io inner now = (.dropped, T.count c)) ∨
      (∃ k c, T.sendData io inner now = (.dropped, T.countFor k c)) ∨
      ∃ outcome e, Sendable T inner e ∧
        T.sendData io inner now = (outcome, T.call io e.cfg.peerId (.sendData inner) now) := by
  unfold sendData
  by_cases hshort : inner.length < 20
  · rw [if_pos hshort]
    exact .inl ⟨_, rfl⟩
  rw [if_neg hshort]
  by_cases hversion : read8 inner 0 >>> 4 ≠ 4
  · rw [if_pos hversion]
    exact .inl ⟨_, rfl⟩
  rw [if_neg hversion]
  by_cases hlong : maxInner < inner.length
  · rw [if_pos hlong]
    exact .inl ⟨_, rfl⟩
  rw [if_neg hlong]
  by_cases hsource : T.localVip ≠ some (read32 inner 12)
  · rw [if_pos hsource]
    exact .inl ⟨_, rfl⟩
  rw [if_neg hsource]
  by_cases hunicast : isNotUnicast (read32 inner 16) = true
  · rw [if_pos hunicast]
    exact .inl ⟨_, rfl⟩
  rw [if_neg hunicast]
  cases hroute : (T.route (read32 inner 16)).bind (fun id => T.sessions.find? (·.id = id)) with
  | none => exact .inl ⟨_, rfl⟩
  | some e =>
    dsimp only
    obtain ⟨id, hid, hfind⟩ := Option.bind_eq_some_iff.mp hroute
    have hsame : e.id = id := by simpa using List.find?_some hfind
    by_cases hstate : e.session.state ≠ .connected
    · rw [if_pos hstate]
      exact .inr (.inl ⟨_, _, rfl⟩)
    · rw [if_neg hstate]
      refine .inr (.inr ⟨_, e, ?_, rfl⟩)
      exact ⟨not_lt.mp hshort, not_lt.mp hlong, not_not.mp hversion, not_not.mp hsource,
        List.mem_of_find?_eq_some hfind,
        hsame ▸ hid, not_not.mp hstate⟩

theorem perform_parts (hi : Invariant T) (hw : Written T.roster) (a : Action) :
    Parts io now a { T with out := [] } (T.perform io a now) := by
  have hclear := hi.cleared
  have hwritten : Written ({ T with out := [] } : Tunnel).roster := hw
  unfold perform
  generalize ({ T with out := [] } : Tunnel) = U at hclear hwritten ⊢
  cases a with
  | createSession request epochDraws nonceDraws =>
    have hc := createSession_cases U request epochDraws nonceDraws now
    change Parts io now _ U (U.createSession request epochDraws nonceDraws now).2
    generalize U.createSession request epochDraws nonceDraws now = result at hc ⊢
    cases hc with
    | refused _ => exact .refl
    | undrawn _ => exact .single (.registered U)
    | created epoch nonce hadmits _ =>
      exact .head (.registered U) (.single (.inserted _ _ _ _ ⟨epochDraws, nonceDraws, rfl⟩
        ((admits_registered request).trans hadmits)))
  | onDatagram source datagram =>
    have hd := onDatagram_cases io U source datagram now
    change Parts io now _ U (U.onDatagram io source datagram now)
    generalize U.onDatagram io source datagram now = V at hd ⊢
    cases hd with
    | malformed err _ => exact .single (.counted U _)
    | unknown header payload _ _ => exact .single (.counted U _)
    | retired header payload e _ _ _ => exact .single (.countedFor U _ _)
    | ended header payload e _ _ _ _ => exact .single (.countedFor U _ _)
    | received header payload e hcheck hfind hretired hactive =>
      obtain ⟨-, hpeer⟩ := find_some hfind
      have hcalled : Part io now (.onDatagram source datagram) U
          (U.call io header.peerId (.receive ⟨header, payload, source⟩) now) := by
        rw [← hpeer] at hfind ⊢
        refine .called U e _ hfind ⟨hpeer.symm, datagram, rfl, hcheck⟩ ?_
        intro p hp
        obtain rfl := Op.receive.inj hp
        exact ⟨hactive, hretired⟩
      exact .head hcalled (capped_parts (hcalled.effect.invariant hclear))
  | sendData inner =>
    change Parts io now _ U (U.sendData io inner now).2
    rcases sendData_sendable io U inner
      now with ⟨c, heq⟩ | ⟨k, c, heq⟩ | ⟨outcome, e, hsendable, heq⟩
    · rw [heq]
      exact .single (.counted U c)
    · rw [heq]
      exact .single (.countedFor U k c)
    · rw [heq]
      exact call_parts (by simp) ⟨rfl, hsendable.min, hsendable.max⟩
  | runTimers =>
    have hask : ∀ k, Asked .runTimers k .poll := fun k => rfl
    have hpoll : Parts io now .runTimers U (U.callAll io .poll now) :=
      foldl_call_parts (by simp) hask _
    have hran := hpoll.trans (runRoster_parts (written_rule.foldl_call hwritten _))
    have herase := hran.trans (eraseExpired_parts (Parts.invariant hran hclear))
    exact herase.trans (capped_parts (Parts.invariant herase hclear))
  | closeAll =>
    have hask : ∀ k, Asked .closeAll k .closeByUser := fun k => Or.inl rfl
    have hclose : Parts io now .closeAll U (U.callAll io .closeByUser now) :=
      foldl_call_parts (by simp) hask _
    exact hclose.trans (capped_parts (hclose.invariant hclear))
  | leaveRoom =>
    have hask : ∀ k, Asked .leaveRoom k .closeByUser := fun k => Or.inr rfl
    have hclose : Parts io now .leaveRoom U (U.callAll io .closeByUser now) :=
      foldl_call_parts (by simp) hask _
    have herase := hclose.trans
      (foldl_erase_parts (hclose.invariant hclear) (List.Sublist.refl _) (callAll_close hclear).1)
    have hstop : Republished now
      ((U.callAll io .closeByUser now).sessions.foldl erase (U.callAll io .closeByUser now))
        .leaveRoom (U.callAll io .closeByUser now).roster.stop := by
      rw [← foldl_erase_roster (U.callAll io .closeByUser now).sessions]
      exact .stop
    exact herase.tail (.settings _ _ none hstop)
  | startPunch peerId => exact call_parts (by simp) rfl
  | setLocalVirtualIp virtualIp => exact .single (.settings U U.roster (some virtualIp) (.same _))
  | startRoster self => exact .single (.settings U (U.roster.start self) U.localVip (.start self))
  | setRosterPeers peers =>
    exact .single (.settings U (U.roster.setPeers peers) U.localVip (.peers peers))

/-! ## What every session keeps -/

/-- `P` holds of every session in the table, `Q` of all they report. -/
structure Holds (P : Entry → Prop) (Q : SessionId × Event → Prop) (T : Tunnel) : Prop where
  entries : ∀ e ∈ T.sessions, P e
  reports : ∀ x ∈ T.out, Q x

/-- What one call of a session, and the changes of an entry without one, keep. -/
structure SessionRule (io : SessionId → SessionIo) (now : Millis) (a : Action) (P : Entry → Prop)
    (Q : SessionId × Event → Prop) : Prop where
  called : ∀ e op, P e → Asked a e.cfg.peerId op →
    P { e with session := step e.cfg (io e.id) e.session op now } ∧
    ∀ x ∈ (step e.cfg (io e.id) e.session op now).out, Q (e.id, x)
  counted : ∀ e c, P e → P { e with session := e.session.count c }
  registered : ∀ e, P e → P { e with epochRetired := true, nonceRetired := true }
  created : ∀ (T : Tunnel) request epoch nonce,
    (∃ epochDraws nonceDraws, a = .createSession request epochDraws nonceDraws) →
    P (T.newEntry request epoch nonce now)

variable {P : Entry → Prop} {Q : SessionId × Event → Prop}

theorem SessionRule.part (hk : SessionRule io now a P Q) (hi : Invariant T) (h : Holds P Q T)
    (hpart : Part io now a T T') :
    Holds P Q T' := by
  cases hpart with
  | called e op hfind hask _ =>
    obtain ⟨he, -⟩ := find_some hfind
    have hc := call_called io op now hfind
    obtain ⟨hstep, hreports⟩ := hk.called e op (h.entries e he) hask
    constructor
    · intro y hy
      rcases (hc.mem hi he).mp hy with rfl | ⟨hy, -⟩
      · exact hstep
      · exact h.entries y hy
    · intro x hx
      rw [hc.out] at hx
      rcases List.mem_append.mp hx with hx | hx
      · exact h.reports x hx
      · obtain ⟨y, hy, rfl⟩ := List.mem_map.mp hx
        exact hreports y hy
  | counted c => exact ⟨h.entries, h.reports⟩
  | countedFor k c =>
    refine ⟨?_, h.reports⟩
    intro y hy
    obtain ⟨x, hx, rfl⟩ := List.mem_map.mp hy
    by_cases hkey : x.cfg.peerId = k
    · rw [if_pos hkey]
      exact hk.counted x c (h.entries x hx)
    · rw [if_neg hkey]
      exact h.entries x hx
  | erased e _ _ => exact ⟨fun x hx => h.entries x (List.mem_filter.mp hx).1, h.reports⟩
  | registered =>
    refine ⟨?_, h.reports⟩
    intro y hy
    obtain ⟨x, hx, rfl⟩ := List.mem_map.mp hy
    by_cases hactive : x.session.active = true
    · rw [if_pos hactive]
      exact h.entries x hx
    · rw [if_neg hactive]
      exact hk.registered x (h.entries x hx)
  | inserted request epoch nonce ha _ =>
    refine ⟨?_, h.reports⟩
    intro y hy
    rcases List.mem_cons.mp ((List.perm_orderedInsert _ _ _).mem_iff.mp hy) with rfl | hy
    · exact hk.created T request epoch nonce ha
    · exact h.entries y (List.mem_filter.mp hy).1
  | settings roster localVip _ => exact ⟨h.entries, h.reports⟩

theorem SessionRule.perform (hk : SessionRule io now a P Q) (hi : Invariant T)
    (hw : Written T.roster) (h : ∀ e ∈ T.sessions, P e) :
    Holds P Q (T.perform io a now) := by
  have hparts : Parts io now a { T with out := [] } (T.perform io a now) := perform_parts hi hw a
  have hstart : Holds P Q { T with out := [] } := by
    refine ⟨h, ?_⟩
    intro x hx
    cases hx
  generalize T.perform io a now = T' at hparts ⊢
  induction hparts with
  | refl => exact hstart
  | tail hprev hlast ih => exact hk.part (Parts.invariant hprev hi.cleared) ih hlast

/-- The rule over a run: `F` may depend on the time and may only grow weaker with it. -/
theorem run_sessions {h : List Turn} {F : Millis → Entry → Prop} {G : SessionId × Event → Prop}
    (hlater : ∀ t now e, t ≤ now → F t e → F now e) (hr : Run io h t T)
    (hk : ∀ x ∈ h, SessionRule io x.now x.action (F x.now) G) :
    (∀ e ∈ T.sessions, F t e) ∧ ∀ x ∈ h, ∀ y ∈ x.after.out, G y := by
  induction hr with
  | start t =>
    constructor
    · intro e he
      cases he
    · intro x hx
      cases hx
  | turn a now hr ht ih =>
    obtain ⟨hentries, hreports⟩ := ih fun x hx => hk x (List.mem_append_left _ hx)
    have hrule := hk _ (List.mem_append_right _ (List.mem_singleton_self _))
    have hholds := hrule.perform (run_invariant hr) (written_rule.run_roster hr)
      fun e he => hlater _ _ e ht (hentries e he)
    refine ⟨hholds.entries, ?_⟩
    intro x hx
    rcases List.mem_append.mp hx with hx | hx
    · exact hreports x hx
    · rw [List.mem_singleton.mp hx]
      exact hholds.reports

end Sangtachi.Tunnel
