import Sangtachi.Tunnel.Deadlines
import Sangtachi.Tunnel.RosterCodec

/-! # One period of the roster

Between a start of the roster and its stop: whom the publisher has timers for was sent the last
roster, and nothing has changed since then unless the publisher knows. -/
namespace Sangtachi.Tunnel

open Sangtachi.BigEndian Sangtachi.Packet Sangtachi.Peer

variable {io : SessionId → SessionIo} {T T' : Tunnel} {e : Entry} {now t : Millis} {k : U32}
  {op : Op} {a : Action}
  {r : RosterPublisher} {l : List Turn} {payload : List U8}

/-! ## Periods -/

/-- The list of the other members as the host gives it: at most four, with valid names. -/
def ListedPeers (peers : List RosterPeer) : Prop :=
  peers.length < maxPeers ∧ ∀ p ∈ peers, isValidName p.name = true

def Between : Action → Prop
  | .startRoster _ => False
  | .leaveRoom => False
  | .setRosterPeers peers => ListedPeers peers
  | _ => True

/-- The turns of a run since a start of the roster; it has not been stopped since. -/
inductive Period (io : SessionId → SessionIo) : List Turn → Millis → Tunnel → Prop where
  | opened {h : List Turn} {t : Millis} {T : Tunnel} (self : RosterPeer) (now : Millis) :
    Run io h t T → t ≤ now →
      isValidName self.name = true → Period io [] now (T.perform io (.startRoster self) now)
  | turn {l : List Turn} {t : Millis} {T : Tunnel} (a : Action) (now : Millis) : Period io l t T →
    t ≤ now → Between a →
      Period io (l ++ [⟨now, a, T, T.perform io a now⟩]) now (T.perform io a now)

theorem Period.run (hp : Period io l t T) : ∃ h, Run io h t T := by
  induction hp with
  | opened self now hr ht _ => exact ⟨_, .turn _ now hr ht⟩
  | turn a now _ ht _ ih =>
    obtain ⟨h, hr⟩ := ih
    exact ⟨_, .turn a now hr ht⟩

/-- The rosters that the turn hands to sessions: those of the run of the publisher, which comes
after the timers of the sessions. -/
def rosterSends (io : SessionId → SessionIo) (x : Turn) : List RosterSend :=
  if x.action = .runTimers then
    let T := ({ x.before with out := [] } : Tunnel).callAll io .poll x.now
    (T.roster.run x.now T.connected).1
  else []

/-- How often the roster got a new number. -/
def changes (l : List Turn) : ℕ :=
  l.countP fun x => x.before.roster.generation ≠ x.after.roster.generation

theorem changes_append (l : List Turn) (x : Turn) :
    changes (l ++ [x]) = changes l + if x.before.roster.generation ≠ x.after.roster.generation then
    1 else 0 := by
  unfold changes
  rw [List.countP_append, List.countP_singleton]
  simp

/-! ## Rosters that can be written -/

structure Writable (c : RosterContent) : Prop where
  pos : 1 ≤ c.count
  max : c.count ≤ maxPeers
  counted : c.count ≤ c.members.length
  names : ∀ m ∈ c.members, isValidName m.name = true

theorem Writable.encodes {c : RosterContent} (h : Writable c) (generation : U32) :
    ∃ bytes, encodeRoster generation c.count c.members rosterMaxPayload = some bytes := by
  have hnames : ∀ m ∈ c.members.take c.count, isValidName m.name = true :=
    fun m hm => h.names m (List.mem_of_mem_take hm)
  have hbad : ¬ ((c.members.take c.count).any fun m => maxNameLen < m.name.length ∨
    !isValidName m.name) = true := by
    rw [Bool.not_eq_true, List.any_eq_false]
    intro m hm
    have hvalid := hnames m hm
    have hlength := (length_of_isValidName hvalid).2
    simp [hvalid, hlength]
  have hsize := (flatMap_encodeMember_length hnames).2
  have hcount : (c.members.take c.count).length = c.count := by
    rw [List.length_take]
    exact Nat.min_eq_left h.counted
  rw [hcount] at hsize
  have hmax := h.max
  have hroom : ¬ rosterMaxPayload < (write32 generation ++ [BitVec.ofNat 8 c.count] ++
      (c.members.take c.count).flatMap encodeMember).length := by
    have hhead : (write32 generation ++ [BitVec.ofNat 8 c.count] ++
      (c.members.take c.count).flatMap encodeMember).length =
        rosterHeadSize + ((c.members.take c.count).flatMap encodeMember).length := by
      rw [List.length_append]
      rfl
    rw [hhead]
    simp only [rosterMaxPayload, rosterMemberFixedSize, maxNameLen, maxPeers] at hsize hmax ⊢
    omega
  unfold encodeRoster
  have hpos := h.pos
  rw [if_neg (by omega), if_neg hbad]
  exact ⟨_, if_neg hroom⟩

theorem build_writable {self : RosterPeer} {peers : List RosterPeer}
    (hself : isValidName self.name = true) (hpeers : ListedPeers peers) (connected : List U32) :
    Writable (RosterPublisher.build self peers connected) := by
  have hmember : ∀ (p : RosterPeer) (b : Bool), isValidName p.name = true →
    isValidName (member p b).name = true := by
    intro p b hp
    have hlength := (length_of_isValidName hp).2
    unfold member
    dsimp only
    rw [List.take_of_length_le hlength]
    exact hp
  have hshort := hpeers.1
  unfold RosterPublisher.build
  dsimp only
  constructor
  · simp
  · simp only [List.length_cons, List.length_map]
    unfold maxPeers at hshort ⊢
    omega
  · simp only [List.length_take, List.length_cons, List.length_map]
    unfold maxPeers at hshort ⊢
    omega
  · intro m hm
    rcases List.mem_cons.mp (List.mem_of_mem_take hm) with rfl | hm
    · exact hmember self true hself
    · obtain ⟨p, hp, rfl⟩ := List.mem_map.mp hm
      exact hmember p _ (hpeers.2 p hp)

theorem build_congr {self : RosterPeer} {peers : List RosterPeer} {ks ks' : List U32}
    (h : ∀ k, k ∈ ks ↔ k ∈ ks') :
    RosterPublisher.build self peers ks = RosterPublisher.build self peers ks' := by
  unfold RosterPublisher.build
  have hsame : peers.map (fun p => member p (p.peerId ∈ ks)) =
    peers.map (fun p => member p (p.peerId ∈ ks')) := by
    apply List.map_congr_left
    intro p _
    rw [decide_eq_decide.mpr (h p.peerId)]
  rw [hsame]

/-- The publisher is active, and all it was given can be written. -/
structure Proper (r : RosterPublisher) : Prop where
  self : ∃ self, r.self = some self ∧ isValidName self.name = true
  peers : ListedPeers r.peers
  last : ∃ c, r.last = some c ∧ Writable c

theorem Proper.writes (h : Proper r) : ∃ c bytes, r.last = some c ∧
    encodeRoster r.generation c.count c.members rosterMaxPayload = some bytes ∧
    r.payload = some bytes := by
  obtain ⟨c, hc, hwritable⟩ := h.last
  obtain ⟨bytes, hbytes⟩ := hwritable.encodes r.generation
  refine ⟨c, bytes, hc, hbytes, ?_⟩
  unfold RosterPublisher.payload
  rw [hc]
  exact hbytes

theorem Proper.changed (h : Proper r) (k : U32) (entered : Bool) :
    Proper (r.onConnectedChange k entered) := by
  unfold RosterPublisher.onConnectedChange
  by_cases hself : r.self.isNone = true
  · rw [if_pos hself]
    exact h
  · rw [if_neg hself]
    exact ⟨h.self, h.peers, h.last⟩

theorem Proper.ran (h : Proper r) (now : Millis) (connected : List U32) :
    Proper (r.run now connected).2 := by
  obtain ⟨self, hself, hname⟩ := h.self
  have hran := RosterPublisher.run_ran hself now connected
  refine ⟨⟨self, hran.self.trans hself, hname⟩, ?_, ?_⟩
  · rw [hran.peers]
    exact h.peers
  · rcases hran.last with hsame | ⟨self', hself', hbuilt⟩
    · rw [hsame]
      exact h.last
    · obtain rfl := Option.some.inj (hself.symm.trans hself')
      exact ⟨_, hbuilt, build_writable hname h.peers connected⟩

/-- The number of a payload, as its first four bytes say it. -/
def generationOf (payload : List U8) : U32 := read32 payload 0

theorem encoded_generation {generation : U32} {count room : ℕ} {members : List RosterMember}
    (h : encodeRoster generation count members room = some payload) :
    generationOf payload = generation := by
  obtain ⟨-, -, rfl⟩ := encodeRoster_some h
  exact join32 _

theorem payload_generation (h : r.payload = some payload) :
    generationOf payload = r.generation := by
  obtain ⟨c, -, hencode⟩ := Option.bind_eq_some_iff.mp h
  exact encoded_generation hencode

/-! ## What was sent last -/

/-- The session did not change its state in these calls. -/
def Unmoved (id : SessionId) (out : List (SessionId × Event)) : Prop :=
  ∀ before after, (id, Event.transition before after) ∉ out

def ConnectedIn (e : Entry) (T : Tunnel) : Prop :=
  ∃ y ∈ T.sessions, y.id = e.id ∧ y.cfg.peerId = e.cfg.peerId ∧ y.session.state = .connected

/-- The publisher listed the payload for the session in some turn, after which it was connected;
since then it has listed no other for it, and the session has not changed its state. -/
def LastListed (io : SessionId → SessionIo) (l : List Turn) (e : Entry)
    (payload : List U8) : Prop :=
  ∃ l₁ x l₂, l = l₁ ++ x :: l₂ ∧ (e.cfg.peerId, payload) ∈ rosterSends io x ∧
    ConnectedIn e x.after ∧
    ∀ z ∈ l₂, (∀ p, (e.cfg.peerId, p) ∉ rosterSends io z) ∧ ConnectedIn e z.after ∧
      Unmoved e.id z.after.out

theorem LastListed.congr {e' : Entry} (h : LastListed io l e payload) (hid : e'.id = e.id)
    (hpeer : e'.cfg.peerId = e.cfg.peerId) : LastListed io l e' payload := by
  obtain ⟨l₁, x, l₂, hl, hsent, hafter, hsince⟩ := h
  unfold ConnectedIn at hafter hsince
  refine ⟨l₁, x, l₂, hl, ?_, ?_, ?_⟩
  · rw [hpeer]
    exact hsent
  · unfold ConnectedIn
    rw [hid, hpeer]
    exact hafter
  · unfold ConnectedIn
    rw [hid, hpeer]
    exact hsince

theorem LastListed.later {z : Turn} (h : LastListed io l e payload)
    (hnone : ∀ p, (e.cfg.peerId, p) ∉ rosterSends io z) (hthere : ConnectedIn e z.after)
    (hunmoved : Unmoved e.id z.after.out) : LastListed io (l ++ [z]) e payload := by
  obtain ⟨l₁, x, l₂, rfl, hsent, hafter, hsince⟩ := h
  refine ⟨l₁, x, l₂ ++ [z], by simp, hsent, hafter, ?_⟩
  intro w hw
  rcases List.mem_append.mp hw with hw | hw
  · exact hsince w hw
  · obtain rfl := List.mem_singleton.mp hw
    exact ⟨hnone, hthere, hunmoved⟩

/-- The state of the publisher against the turns before: nothing has changed since the last roster
unless it knows, and whom it has timers for was sent its last roster. -/
structure Current (io : SessionId → SessionIo) (l : List Turn) (T : Tunnel) : Prop where
  booked : Booked T
  proper : Proper T.roster
  served : T.roster.dirty = false → ∀ k ∈ T.connected, (T.roster.schedule k).isSome = true
  content : T.roster.dirty = false → ∀ self, T.roster.self = some self →
    ∃ ks, (∀ k, k ∈ ks ↔ k ∈ T.connected) ∧
      T.roster.last = some (RosterPublisher.build self T.roster.peers ks)
  reached : ∀ e ∈ T.sessions, e.session.state = .connected →
    (T.roster.schedule e.cfg.peerId).isSome = true →
    Unmoved e.id T.out ∧ ∃ payload, T.roster.payload = some payload ∧ LastListed io l e payload

theorem Current.kept (hc : Current io l T) (hb : Booked T') (hroster : T'.roster = T.roster)
    (hback : ∀ y ∈ T'.sessions, y.session.state = .connected →
      ∃ x ∈ T.sessions, x.session.state = .connected ∧ x.id = y.id ∧ x.cfg.peerId = y.cfg.peerId)
    (hforth : ∀ x ∈ T.sessions, x.session.state = .connected →
      ∃ y ∈ T'.sessions, y.session.state = .connected ∧ y.cfg.peerId = x.cfg.peerId)
    (hout : ∀ y ∈ T'.sessions, y.session.state = .connected → Unmoved y.id T.out →
      Unmoved y.id T'.out) :
    Current io l T' := by
  have hconnected : ∀ k, k ∈ T'.connected ↔ k ∈ T.connected := by
    intro k
    rw [mem_connected, mem_connected]
    constructor
    · rintro ⟨y, hy, hstate, rfl⟩
      obtain ⟨x, hx, hstate', -, hpeer⟩ := hback y hy hstate
      exact ⟨x, hx, hstate', hpeer⟩
    · rintro ⟨x, hx, hstate, rfl⟩
      obtain ⟨y, hy, hstate', hpeer⟩ := hforth x hx hstate
      exact ⟨y, hy, hstate', hpeer⟩
  refine ⟨hb, hroster ▸ hc.proper, ?_, ?_, ?_⟩
  · rw [hroster]
    intro hclean k hk
    exact hc.served hclean k ((hconnected k).mp hk)
  · rw [hroster]
    intro hclean self hself
    obtain ⟨ks, hks, hlast⟩ := hc.content hclean self hself
    exact ⟨ks, fun k => (hks k).trans (hconnected k).symm, hlast⟩
  · rw [hroster]
    intro y hy hstate hschedule
    obtain ⟨x, hx, hstate', hid, hpeer⟩ := hback y hy hstate
    rw [← hpeer] at hschedule
    obtain ⟨hunmoved, payload, hpayload, hsent⟩ := hc.reached x hx hstate' hschedule
    rw [hid] at hunmoved
    exact ⟨hout y hy hstate hunmoved, payload, hpayload, hsent.congr hid.symm hpeer.symm⟩

theorem unmoved_append {id : SessionId} {out out' : List (SessionId × Event)} :
    Unmoved id (out ++ out') ↔ Unmoved id out ∧ Unmoved id out' := by
  constructor
  · intro h
    exact ⟨fun before after hmem => h before after (List.mem_append_left _ hmem),
      fun before after hmem => h before after (List.mem_append_right _ hmem)⟩
  · rintro ⟨h, h'⟩ before after hmem
    rcases List.mem_append.mp hmem with hmem | hmem
    · exact h before after hmem
    · exact h' before after hmem

theorem unmoved_other {id k : SessionId} (events : List Event) (h : id ≠ k) :
    Unmoved id (events.map fun x => (k, x)) := by
  intro before after hmem
  obtain ⟨x, -, hx⟩ := List.mem_map.mp hmem
  exact h (Prod.mk.inj hx).1.symm

theorem unmoved_same {id k : SessionId} {events : List Event} (h : transitionsOf events = []) :
    Unmoved id (events.map fun x => (k, x)) := by
  intro before after hmem
  obtain ⟨x, hx, heq⟩ := List.mem_map.mp hmem
  obtain rfl := (Prod.mk.inj heq).2
  have hmoved : (before, after) ∈ transitionsOf events := List.mem_filterMap.mpr ⟨_, hx, rfl⟩
  rw [h] at hmoved
  cases hmoved

theorem onConnectedChange_active {entered : Bool}
    (h : ∃ self, r.self = some self ∧ isValidName self.name = true) :
    r.onConnectedChange k entered =
      { r with
        schedules := if entered then r.schedules else r.schedules.filter (·.peerId ≠ k)
        forcedChange := r.forcedChange || r.peers.any (·.peerId = k)
        dirty := true } := by
  obtain ⟨self, hself, -⟩ := h
  unfold RosterPublisher.onConnectedChange
  rw [hself]
  rfl

theorem Current.call (hc : Current io l T) (hi : Invariant T) :
    Current io l (T.call io k op now) := by
  cases hfind : T.find k with
  | none =>
    rw [call_none hfind]
    exact hc
  | some e =>
    obtain ⟨he, hpeer⟩ := find_some hfind
    have hb : Booked (T.call io k op now) := hc.booked.call hi
    have hcalled := call_called io op now hfind
    have htransitions := step_transitions (C := e.cfg) (E := io e.id) e.session op now
    have hroster : (T.call io k op now).roster =
        heard k T.roster
          (e.session.state, (step e.cfg (io e.id) e.session op now).state) := call_roster hfind
    have hmem := fun y => hcalled.mem hi he (y := y)
    have hout := hcalled.out
    generalize step e.cfg (io e.id) e.session op now = s' at htransitions hroster hmem hout
    generalize T.call io k op now = U at hb hroster hmem hout ⊢
    by_cases hchanged : (e.session.state = .connected) ≠ (s'.state = .connected)
    · have heard : U.roster = T.roster.onConnectedChange k (s'.state = .connected) :=
        hroster.trans (if_pos hchanged)
      rw [ne_eq, eq_iff_iff] at hchanged
      have hdirty : U.roster.dirty = true := by
        rw [heard, onConnectedChange_active hc.proper.self]
      have hother : ∀ y ∈ U.sessions, y.session.state = .connected →
        (U.roster.schedule y.cfg.peerId).isSome = true →
          y ∈ T.sessions ∧ y ≠ e ∧
          U.roster.schedule y.cfg.peerId = T.roster.schedule y.cfg.peerId := by
        intro y hy hstate hschedule
        rw [heard, onConnectedChange_active hc.proper.self] at hschedule ⊢
        unfold RosterPublisher.schedule at hschedule ⊢
        dsimp only at hschedule ⊢
        rcases (hmem y).mp hy with rfl | ⟨hy, hne⟩
        · -- the session has just entered: it had no timers while it was not connected
          have hentered : s'.state = .connected := hstate
          rw [if_pos (by simpa using hentered)] at hschedule
          obtain ⟨sch, hsch⟩ := Option.isSome_iff_exists.mp hschedule
          obtain ⟨hin, hkey⟩ := RosterPublisher.schedule_some hsch
          obtain ⟨x, hx, hxstate, hxkey⟩ := mem_connected.mp (hc.booked.connected sch hin)
          obtain rfl := hi.same_key hx he (hxkey.trans hkey)
          exact absurd ⟨fun _ => hentered, fun _ => hxstate⟩ hchanged
        · refine ⟨hy, hne, ?_⟩
          have hykey : y.cfg.peerId ≠ k :=
            fun hsame => hne (hi.same_key hy he (hsame.trans hpeer.symm))
          by_cases hentered : s'.state = .connected
          · rw [if_pos (by simpa using hentered)]
          · rw [if_neg (by simpa using hentered), List.find?_filter]
            congr 1
            funext x
            by_cases hx : x.peerId = y.cfg.peerId
            · simp [hx, hykey]
            · simp [hx]
      refine ⟨hb, ?_, ?_, ?_, ?_⟩
      · rw [heard]
        exact hc.proper.changed k _
      · intro hclean
        rw [hdirty] at hclean
        cases hclean
      · intro hclean
        rw [hdirty] at hclean
        cases hclean
      · intro y hy hstate hschedule
        obtain ⟨hy', hne, hsame⟩ := hother y hy hstate hschedule
        rw [hsame] at hschedule
        obtain ⟨hunmoved, payload, hpayload, hsent⟩ := hc.reached y hy' hstate hschedule
        refine ⟨?_, payload, ?_, hsent⟩
        · rw [hout, unmoved_append]
          exact ⟨hunmoved, unmoved_other _ fun hid => hne (hi.same_id hy' he hid)⟩
        · rw [heard, onConnectedChange_active hc.proper.self]
          exact hpayload
    · have hsame : U.roster = T.roster := hroster.trans (if_neg hchanged)
      rw [ne_eq, not_not, eq_iff_iff] at hchanged
      refine hc.kept hb hsame ?_ ?_ ?_
      · intro y hy hstate
        rcases (hmem y).mp hy with rfl | ⟨hy, -⟩
        · exact ⟨e, he, hchanged.mpr hstate, rfl, rfl⟩
        · exact ⟨y, hy, hstate, rfl, rfl⟩
      · intro x hx hstate
        by_cases hxe : x = e
        · subst hxe
          exact ⟨_, (hmem _).mpr (.inl rfl), hchanged.mp hstate, rfl⟩
        · exact ⟨x, (hmem x).mpr (.inr ⟨hx, hxe⟩), hstate, rfl⟩
      · intro y hy hstate hunmoved
        rw [hout, unmoved_append]
        refine ⟨hunmoved, ?_⟩
        rcases (hmem y).mp hy with rfl | ⟨hy, hne⟩
        · apply unmoved_same
          rw [htransitions, hchanged.mpr hstate, show s'.state = .connected from hstate]
          exact if_pos rfl
        · exact unmoved_other _ fun hid => hne (hi.same_id hy he hid)

theorem Current.foldl_call (hc : Current io l T) (hi : Invariant T) (peers : List U32) :
    Current io l (peers.foldl (fun T peerId => T.call io peerId op now) T) := by
  induction peers generalizing T with
  | nil => exact hc
  | cons k rest ih => exact ih (hc.call hi) (call_invariant hi)

theorem Current.mapped {g : Entry → Entry} (hc : Current io l T)
    (hstate : ∀ x, (g x).session.state = x.session.state) (hid : ∀ x, (g x).id = x.id)
    (hcfg : ∀ x, (g x).cfg = x.cfg)
    (hsessions : T'.sessions = T.sessions.map g) (hroster : T'.roster = T.roster)
    (hout : T'.out = T.out) : Current io l T' := by
  refine hc.kept (hc.booked.mapped hstate hcfg hsessions hroster) hroster ?_ ?_ ?_
  · intro y hy hconnected
    rw [hsessions] at hy
    obtain ⟨x, hx, rfl⟩ := List.mem_map.mp hy
    exact ⟨x, hx, (hstate x).symm.trans hconnected, (hid x).symm, by rw [hcfg]⟩
  · intro x hx hconnected
    rw [hsessions]
    exact ⟨g x, List.mem_map_of_mem hx, (hstate x).trans hconnected, by rw [hcfg]⟩
  · intro y _ _ hunmoved
    rw [hout]
    exact hunmoved

theorem Current.erase (hc : Current io l T) (hi : Invariant T) (he : e ∈ T.sessions)
    (hended : e.session.active = false) :
    Current io l (T.erase e) := by
  have hkeep : ∀ x ∈ T.sessions, x.session.state = .connected → x ∈ (T.erase e).sessions := by
    intro x hx hstate
    refine List.mem_filter.mpr ⟨hx, ?_⟩
    rw [decide_eq_true_eq]
    intro hkey
    obtain rfl := hi.same_key hx he hkey
    rw [active_of_connected hstate] at hended
    cases hended
  refine hc.kept
    (hc.booked.kept rfl rfl fun x hx hstate => ⟨x, hkeep x hx hstate, hstate, rfl⟩) rfl ?_ ?_ ?_
  · intro y hy hstate
    exact ⟨y, (List.mem_filter.mp hy).1, hstate, rfl, rfl⟩
  · intro x hx hstate
    exact ⟨x, hkeep x hx hstate, hstate, rfl⟩
  · intro y _ _ hunmoved
    exact hunmoved

theorem Current.insert {request : NewSession} {epoch : U32} {nonce : Nonce} (hc : Current io l T)
    (hi : Invariant T) (hadmits : T.admits request = true) :
    Current io l (T.insert (T.newEntry request epoch nonce now)) := by
  have hkeep : ∀ x ∈ T.sessions, x.session.state = .connected →
      x ∈ (T.insert (T.newEntry request epoch nonce now)).sessions := by
    intro x hx hstate
    refine (List.perm_orderedInsert _ _ _).mem_iff.mpr
      (List.mem_cons_of_mem _ (List.mem_filter.mpr ⟨hx, ?_⟩))
    rw [decide_eq_true_eq]
    intro hsame
    have hkey : x.cfg.peerId = request.peerId := hsame
    have hfind := find_of_mem hi.keys hx
    rw [hkey] at hfind
    have hinactive := (admits_iff.mp hadmits).1 x hfind
    rw [active_of_connected hstate] at hinactive
    cases hinactive
  refine hc.kept (hc.booked.insert hi hadmits) rfl ?_ ?_ ?_
  · intro y hy hstate
    rcases List.mem_cons.mp ((List.perm_orderedInsert _ _ _).mem_iff.mp hy) with rfl | hy
    · cases hstate
    · exact ⟨y, (List.mem_filter.mp hy).1, hstate, rfl, rfl⟩
  · intro x hx hstate
    exact ⟨x, hkeep x hx hstate, hstate, rfl⟩
  · intro y _ _ hunmoved
    exact hunmoved

theorem Part.current (hpart : Part io now a T T') (ha : Between a) (hrun : a ≠ .runTimers)
    (hi : Invariant T) (hc : Current io l T) :
    Current io l T' := by
  cases hpart with
  | called e op _ _ _ => exact hc.call hi
  | counted c =>
    exact ⟨⟨hc.booked.inactive, hc.booked.connected⟩, hc.proper, hc.served, hc.content, hc.reached⟩
  | countedFor k c =>
    refine hc.mapped
      (g := fun e => if e.cfg.peerId = k then { e with session := e.session.count c } else e)
      ?_ ?_ ?_ rfl rfl rfl
    · intro x
      split_ifs <;> rfl
    · intro x
      split_ifs <;> rfl
    · intro x
      split_ifs <;> rfl
  | erased e hfind hended => exact hc.erase hi (find_some hfind).1 hended
  | registered =>
    refine hc.mapped (g := fun e => if e.session.active then
      e else { e with epochRetired := true, nonceRetired := true })
      ?_ registered_same.id registered_same.cfg rfl rfl rfl
    intro x
    split_ifs <;> rfl
  | inserted request epoch nonce _ hadmits => exact hc.insert hi hadmits
  | settings roster localVip hrepublished =>
    cases hrepublished with
    | same =>
      exact ⟨⟨hc.booked.inactive, hc.booked.connected⟩, hc.proper, hc.served,
        hc.content, hc.reached⟩
    | run => exact absurd rfl hrun
    | start self => exact ha.elim
    | stop => exact ha.elim
    | peers peers =>
      refine ⟨⟨hc.booked.inactive, hc.booked.connected⟩, ⟨hc.proper.self, ha, hc.proper.last⟩, ?_,
        ?_, hc.reached⟩
      · intro hclean
        cases hclean
      · intro hclean
        cases hclean

theorem Parts.current (hparts : Parts io now a T T') (ha : Between a) (hrun : a ≠ .runTimers)
    (hi : Invariant T) (hc : Current io l T) :
    Current io l T' := by
  induction hparts with
  | refl => exact hc
  | tail hprev hlast ih => exact hlast.current ha hrun (Parts.invariant hprev hi) ih

/-! ## The turn of the timers -/

/-- The connected sessions are the same, and those did not change their state meanwhile. -/
structure SameConnected (T T' : Tunnel) : Prop where
  back : ∀ y ∈ T'.sessions, y.session.state = .connected →
    ∃ x ∈ T.sessions, x.session.state = .connected ∧ x.id = y.id ∧ x.cfg.peerId = y.cfg.peerId
  forth : ∀ x ∈ T.sessions, x.session.state = .connected →
    ∃ y ∈ T'.sessions, y.session.state = .connected ∧ y.id = x.id ∧ y.cfg.peerId = x.cfg.peerId
  out : ∀ id, Unmoved id T.out → Unmoved id T'.out

theorem SameConnected.refl (T : Tunnel) : SameConnected T T :=
  ⟨fun y hy h => ⟨y, hy, h, rfl, rfl⟩, fun x hx h => ⟨x, hx, h, rfl, rfl⟩, fun _ h => h⟩

theorem SameConnected.trans {T'' : Tunnel} (h : SameConnected T T') (k : SameConnected T' T'') :
    SameConnected T T'' := by
  refine ⟨?_, ?_, fun id hid => k.out id (h.out id hid)⟩
  · intro z hz hstate
    obtain ⟨y, hy, hstate', hid, hpeer⟩ := k.back z hz hstate
    obtain ⟨x, hx, hstate'', hid', hpeer'⟩ := h.back y hy hstate'
    exact ⟨x, hx, hstate'', hid'.trans hid, hpeer'.trans hpeer⟩
  · intro x hx hstate
    obtain ⟨y, hy, hstate', hid, hpeer⟩ := h.forth x hx hstate
    obtain ⟨z, hz, hstate'', hid', hpeer'⟩ := k.forth y hy hstate'
    exact ⟨z, hz, hstate'', hid'.trans hid, hpeer'.trans hpeer⟩

theorem SameConnected.connected (h : SameConnected T T') (k : U32) : k ∈ T'.connected ↔
      k ∈ T.connected := by
  rw [mem_connected, mem_connected]
  constructor
  · rintro ⟨y, hy, hstate, rfl⟩
    obtain ⟨x, hx, hstate', -, hpeer⟩ := h.back y hy hstate
    exact ⟨x, hx, hstate', hpeer⟩
  · rintro ⟨x, hx, hstate, rfl⟩
    obtain ⟨y, hy, hstate', -, hpeer⟩ := h.forth x hx hstate
    exact ⟨y, hy, hstate', hpeer⟩

theorem sendRoster_connected (hi : Invariant T) (k : U32) (payload : List U8) :
    SameConnected T (T.call io k (.sendRoster payload) now) := by
  cases hfind : T.find k with
  | none =>
    rw [call_none hfind]
    exact .refl T
  | some e =>
    obtain ⟨he, -⟩ := find_some hfind
    have hcalled := call_called io (.sendRoster payload) now hfind
    have hstate : (step e.cfg (io e.id) e.session (.sendRoster payload) now).state =
      e.session.state :=
      step_roster_state e.session e.cfg (io e.id) payload
    have htransitions :
      transitionsOf (step e.cfg (io e.id) e.session (.sendRoster payload) now).out = [] := by
      rw [step_transitions, hstate]
      exact if_pos rfl
    refine ⟨?_, ?_, ?_⟩
    · intro y hy hconnected
      rcases (hcalled.mem hi he).mp hy with rfl | ⟨hy, -⟩
      · exact ⟨e, he, hstate.symm.trans hconnected, rfl, rfl⟩
      · exact ⟨y, hy, hconnected, rfl, rfl⟩
    · intro x hx hconnected
      by_cases hxe : x = e
      · subst hxe
        exact ⟨_, (hcalled.mem hi he).mpr (.inl rfl), hstate.trans hconnected, rfl, rfl⟩
      · exact ⟨x, (hcalled.mem hi he).mpr (.inr ⟨hx, hxe⟩), hconnected, rfl, rfl⟩
    · intro id hid
      rw [hcalled.out, unmoved_append]
      exact ⟨hid, unmoved_same htransitions⟩

theorem sendRosters_connected (hi : Invariant T) (sends : List RosterSend) :
    SameConnected T (T.sendRosters io now sends) := by
  induction sends generalizing T with
  | nil => exact .refl T
  | cons x rest ih =>
    have hone : SameConnected T (T.call io x.1 (.sendRoster x.2) now) :=
      sendRoster_connected hi x.1 x.2
    exact hone.trans (ih (call_invariant hi))

theorem SameConnected.kept (hout : T'.out = T.out) (hsub : ∀ x ∈ T'.sessions, x ∈ T.sessions)
    (hkeep : ∀ x ∈ T.sessions, x.session.state = .connected → x ∈ T'.sessions) :
    SameConnected T T' := by
  refine ⟨?_, ?_, ?_⟩
  · intro y hy hstate
    exact ⟨y, hsub y hy, hstate, rfl, rfl⟩
  · intro x hx hstate
    exact ⟨x, hkeep x hx hstate, hstate, rfl, rfl⟩
  · intro id hid
    rw [hout]
    exact hid

theorem eraseExpired_connected (hi : Invariant T) : SameConnected T (T.eraseExpired now) :=
  .kept (foldl_erase_out _) (fun _ hx => ((mem_eraseExpired hi).mp hx).1)
    fun _ hx hstate => mem_eraseExpired_of_connected hi hx hstate

theorem capped_connected (hi : Invariant T) : SameConnected T T.capped :=
  .kept (capped_capped hi).out (capped_capped hi).kept fun _ hx hstate =>
    mem_capped_of_connected hi hx hstate

theorem runTimers_connected (hi : Invariant T) :
    SameConnected (T.callAll io .poll now) (T.runTimers io now) := by
  have hpoll : Effects io now .runTimers T (T.callAll io .poll now) :=
    foldl_call_effects (by simp) _
  have hpolled := Effects.invariant hpoll hi
  have hrun := hpoll.trans runRoster_effects
  have hran := Effects.invariant hrun hi
  have herased := Effects.invariant (hrun.trans (eraseExpired_effects hran)) hi
  have hsent :
    SameConnected (T.callAll io .poll now) ((T.callAll io .poll now).runRoster io now) := by
    have hrepublished : SameConnected (T.callAll io .poll now)
        { T.callAll io .poll now with
          roster :=
            ((T.callAll io .poll now).roster.run now (T.callAll io .poll now).connected).2 } :=
      .kept rfl (fun x hx => hx) (fun x hx _ => hx)
    exact hrepublished.trans (sendRosters_connected hpolled.republished _)
  exact (hsent.trans (eraseExpired_connected hran)).trans (capped_connected herased)

theorem rosterSends_none {x : Turn} (h : x.action ≠ .runTimers) : rosterSends io x = [] := if_neg h

theorem rosterSends_timers (T T' : Tunnel) (now : Millis) :
    rosterSends io ⟨now, .runTimers, T, T'⟩ =
    ((({ T with out := [] } : Tunnel).callAll io .poll now).roster.run now
      (({ T with out := [] } : Tunnel).callAll io .poll now).connected).1 := if_pos rfl

theorem Current.turned {x : Turn} (hc : Current io l T) (hafter : x.after = T)
    (hnone : rosterSends io x = []) :
    Current io (l ++ [x]) { T with out := [] } := by
  refine ⟨⟨hc.booked.inactive, hc.booked.connected⟩, hc.proper, hc.served, hc.content, ?_⟩
  intro e he hstate hschedule
  obtain ⟨hunmoved, payload, hpayload, hsent⟩ := hc.reached e he hstate hschedule
  refine ⟨fun before after hmem => (by cases hmem), payload, hpayload, hsent.later ?_ ?_ ?_⟩
  · intro p hp
    rw [hnone] at hp
    cases hp
  · exact ⟨e, hafter ▸ he, rfl, rfl, hstate⟩
  · rw [hafter]
    exact hunmoved

theorem connected_nodup (hi : Invariant T) : T.connected.Nodup :=
  hi.keys.sublist (List.filter_sublist.map _)

/-- The turn of the timers: the publisher runs on what the timers of the sessions left, and whom it
does not serve has the present roster already. -/
theorem Current.timers (hc : Current io l { T with out := [] }) (hi : Invariant T) :
    Current io (l ++ [⟨now, .runTimers, T, T.perform io .runTimers now⟩])
      { T.perform io .runTimers now with out := [] } := by
  have hclear := hi.cleared
  have hafter : T.perform io .runTimers now =
    ({ T with out := [] } : Tunnel).runTimers io now := rfl
  have hsends := @rosterSends_timers io T (T.perform io .runTimers now) now
  have hb : Booked (T.perform io .runTimers now) :=
    perform_booked hi ⟨hc.booked.inactive, hc.booked.connected⟩ .runTimers
  rw [hafter] at hsends hb ⊢
  generalize ({ T with out := [] } : Tunnel) = U at hc hclear hsends hb ⊢
  have hpolled : Current io l (U.callAll io .poll now) := hc.foldl_call hclear _
  have hpoll : Effects io now .runTimers U (U.callAll io .poll now) :=
    foldl_call_effects (by simp) _
  have hsame : SameConnected (U.callAll io .poll now) (U.runTimers io now) :=
    runTimers_connected hclear
  have hroster : (U.runTimers io now).roster = _ := runTimers_roster hclear
  have hnodup := connected_nodup (Effects.invariant hpoll hclear)
  generalize U.callAll io .poll now = A at hpolled hsame hroster hnodup hsends
  generalize U.runTimers io now = V at hsame hroster hsends hb ⊢
  obtain ⟨self, hself, -⟩ := hpolled.proper.self
  have hran := RosterPublisher.run_ran hself now A.connected
  have hserves : ∀ k ∈ V.connected, _ := fun k hk => RosterPublisher.run_serves hself now hnodup
    ((hsame.connected k).mp hk) fun hclean => hpolled.served hclean k ((hsame.connected k).mp hk)
  refine ⟨⟨hb.inactive, hb.connected⟩, hroster ▸ hpolled.proper.ran now _, ?_, ?_, ?_⟩
  · intro _ k hk
    rw [show ({ V with out := [] } : Tunnel).roster = V.roster from rfl, hroster]
    exact (hserves k hk).1
  · intro _ self' hself'
    rw [show ({ V with out := [] } : Tunnel).roster = V.roster from rfl, hroster] at hself' ⊢
    obtain rfl := Option.some.inj ((hself.symm.trans hran.self.symm).trans hself')
    rw [RosterPublisher.run_content hself now A.connected, hran.peers]
    cases hdirty : A.roster.dirty with
    | true => exact ⟨A.connected, fun k => (hsame.connected k).symm, rfl⟩
    | false =>
      obtain ⟨ks, hks, hlast⟩ := hpolled.content hdirty _ hself
      exact ⟨ks, fun k => (hks k).trans (hsame.connected k).symm, hlast⟩
  · intro e he hstate _
    rw [show ({ V with out := [] } : Tunnel).roster = V.roster from rfl, hroster]
    have hk : e.cfg.peerId ∈ V.connected := mem_connected.mpr ⟨e, he, hstate, rfl⟩
    refine ⟨fun before after hmem => (by cases hmem), ?_⟩
    obtain ⟨c, payload, -, -, hpayload⟩ := (hpolled.proper.ran now A.connected).writes
    refine ⟨payload, hpayload, ?_⟩
    rcases (hserves _ hk).2 with ⟨more, hserved, -⟩ | ⟨hnone, hschedule, hgeneration, hlast⟩
    · refine ⟨l, _, [], rfl, ?_, ⟨e, he, rfl, rfl, hstate⟩, fun z hz => (by cases hz)⟩
      rw [hsends]
      have hmem :
        (e.cfg.peerId, payload) ∈ (A.roster.run now A.connected).1.filter (·.1 = e.cfg.peerId) := by
        rw [hserved]
        unfold RosterPublisher.sending
        rw [hpayload]
        exact List.mem_cons_self
      exact (List.mem_filter.mp hmem).1
    · obtain ⟨x, hx, hxstate, hid, hpeer⟩ := hsame.back e he hstate
      rw [← hpeer] at hschedule
      obtain ⟨hunmoved, payload', hpayload', hsent⟩ := hpolled.reached x hx hxstate hschedule
      have hsamePayload : payload' = payload := by
        rw [RosterPublisher.payload, hgeneration, hlast] at hpayload
        exact Option.some.inj (hpayload'.symm.trans hpayload)
      rw [← hsamePayload]
      refine (hsent.congr hid.symm hpeer.symm).later ?_ ⟨e, he, rfl, rfl, hstate⟩ ?_
      · intro p hp
        rw [hsends] at hp
        have hmem := List.filter_eq_nil_iff.mp hnone _ hp
        simp at hmem
      · exact hsame.out e.id (hid ▸ hunmoved)

theorem Period.current (hp : Period io l t T) : Current io l { T with out := [] } := by
  induction hp with
  | @opened h t T self now hr ht hname =>
    have hempty : ListedPeers [] := ⟨by decide, fun p hp => (by cases hp)⟩
    refine ⟨Booked.empty rfl, ?_, ?_, ?_, ?_⟩
    · exact ⟨⟨self, rfl, hname⟩, hempty, _, rfl, build_writable hname hempty []⟩
    · intro hclean
      cases hclean
    · intro hclean
      cases hclean
    · intro e _ _ hschedule
      cases hschedule
  | @turn l t T a now hp ht ha ih =>
    obtain ⟨h, hr⟩ := hp.run
    have hi := run_invariant hr
    by_cases htimers : a = .runTimers
    · subst htimers
      exact ih.timers hi
    · have hparts : Parts io now a { T with out := [] } (T.perform io a now) :=
        perform_parts hi (written_rule.run_roster hr) a
      exact (hparts.current ha htimers hi.cleared ih).turned rfl (rosterSends_none htimers)

end Sangtachi.Tunnel
