import Sangtachi.Peer.Reported
import Sangtachi.Tunnel.Tunnel

/-! # The session table

What a call of a session changes in the tunnel, and the invariant of the table and the slots: the
slots hold exactly the active sessions. Every public operation is a sequence of few effects, and
each effect keeps the invariant. -/
namespace Sangtachi.Tunnel

open Sangtachi.BigEndian Sangtachi.Packet Sangtachi.Peer

variable {io : SessionId → SessionIo} {T T' : Tunnel} {e : Entry} {now : Millis} {k : U32}
  {op : Op} {a : Action}

/-! ## Calls of a session -/

theorem find_some (h : T.find k = some e) : e ∈ T.sessions ∧ e.cfg.peerId = k :=
  ⟨List.mem_of_find?_eq_some h, by simpa using List.find?_some h⟩

theorem find_of_mem (hkeys : (T.sessions.map (·.cfg.peerId)).Nodup) (he : e ∈ T.sessions) :
    T.find e.cfg.peerId = some e := by
  cases hfind : T.find e.cfg.peerId with
  | none =>
    have hnone := List.find?_eq_none.mp hfind e he
    simp at hnone
  | some x =>
    obtain ⟨hx, hpeer⟩ := find_some hfind
    rw [List.inj_on_of_nodup_map hkeys hx he hpeer]

structure Heard (T : Tunnel) (e : Entry) (now : Millis) (events : List Event)
    (T' : Tunnel) : Prop where
  sessions : T'.sessions = T.sessions
  counters : T'.counters = T.counters
  retired : T'.retired = (retiredOf events).foldl (fun r x => r.add x now) T.retired
  retiredNonces : T'.retiredNonces = T.retiredNonces
  endedNonces : T'.endedNonces = T.endedNonces
  localVip : T'.localVip = T.localVip
  nextId : T'.nextId = T.nextId
  out : T'.out = T.out
  slots : ∀ slot, T'.routes.slots slot =
    if endsIn events = true ∧ T.routes.slots slot = some e.id then none else T.routes.slots slot

theorem onTransition_eq (before after : SessionState) : ∃ roster, T.onTransition e before after =
    if isTerminal after then { T with roster := roster, routes := T.routes.release e.id }
    else { T with roster := roster } := by
  unfold onTransition
  dsimp only
  by_cases hconnected : (before = .connected) ≠ (after = .connected)
  · rw [if_pos hconnected]
    exact ⟨_, rfl⟩
  · rw [if_neg hconnected]
    exact ⟨T.roster, rfl⟩

theorem onTransition_heard (before after : SessionState) :
    Heard T e now [.transition before after] (T.onTransition e before after) := by
  have hends : endsIn [.transition before after] = isTerminal after := Bool.or_false _
  obtain ⟨roster, heq⟩ := onTransition_eq (T := T) (e := e) before after
  rw [heq]
  by_cases hafter : isTerminal after = true
  · rw [if_pos hafter]
    constructor <;> try rfl
    intro slot
    rw [hends, hafter, release_slots]
    by_cases hslot : T.routes.slots slot = some e.id
    · rw [if_pos hslot, if_pos ⟨rfl, hslot⟩]
    · rw [if_neg hslot, if_neg (fun h => hslot h.2)]
  · rw [if_neg hafter]
    constructor <;> try rfl
    intro slot
    rw [hends, if_neg (fun h => hafter h.1)]

theorem onEvent_heard (x : Event) : Heard T e now [x] (onEvent now e T x) := by
  have hquiet : ∀ x : Event, x.ends = false → x.retired? = none → Heard T e now [x] T := by
    intro x hends hretired
    constructor <;> try rfl
    · rw [retiredOf, List.filterMap_cons_none hretired]
      rfl
    · intro slot
      rw [if_neg]
      rintro ⟨h, -⟩
      rw [endsIn, List.any_cons, hends] at h
      cases h
  cases x with
  | sent d => exact hquiet _ rfl rfl
  | delivered inner => exact hquiet _ rfl rfl
  | line l => exact hquiet _ rfl rfl
  | transition before after => exact onTransition_heard before after
  | retired epoch =>
    constructor <;> try rfl
    intro slot
    rw [if_neg]
    · rfl
    · rintro ⟨h, -⟩
      cases h

theorem foldl_heard (events : List Event) :
    Heard T e now events (events.foldl (onEvent now e) T) := by
  induction events generalizing T with
  | nil =>
    constructor <;> try rfl
    intro slot
    rw [if_neg]
    · rfl
    · rintro ⟨h, -⟩
      cases h
  | cons x rest ih =>
    have hx : Heard T e now [x] (onEvent now e T x) := onEvent_heard x
    have hrest := ih (T := onEvent now e T x)
    rw [List.foldl_cons]
    generalize onEvent now e T x = U at hx hrest
    generalize rest.foldl (onEvent now e) U = V at hrest ⊢
    have hcons : x :: rest = [x] ++ rest := rfl
    constructor
    · rw [hrest.sessions, hx.sessions]
    · rw [hrest.counters, hx.counters]
    · rw [hrest.retired, hx.retired, hcons, retiredOf_append, List.foldl_append]
    · rw [hrest.retiredNonces, hx.retiredNonces]
    · rw [hrest.endedNonces, hx.endedNonces]
    · rw [hrest.localVip, hx.localVip]
    · rw [hrest.nextId, hx.nextId]
    · rw [hrest.out, hx.out]
    · intro slot
      rw [hrest.slots, hx.slots, hcons, endsIn_append]
      by_cases hslot : T.routes.slots slot = some e.id
      · cases endsIn [x] <;> cases endsIn rest <;> simp [hslot]
      · simp [hslot]

def swap (k : U32) (s : Session) (x : Entry) : Entry :=
  if x.cfg.peerId = k then { x with session := s } else x

@[simp] theorem swap_cfg (s : Session) (x : Entry) : (swap k s x).cfg = x.cfg := by
  unfold swap
  split_ifs <;> rfl

@[simp] theorem swap_id (s : Session) (x : Entry) : (swap k s x).id = x.id := by
  unfold swap
  split_ifs <;> rfl

@[simp] theorem swap_nonceRetired (s : Session) (x : Entry) :
    (swap k s x).nonceRetired = x.nonceRetired := by
  unfold swap
  split_ifs <;> rfl

@[simp] theorem swap_epochRetired (s : Session) (x : Entry) :
    (swap k s x).epochRetired = x.epochRetired := by
  unfold swap
  split_ifs <;> rfl

structure Called (io : SessionId → SessionIo) (T : Tunnel) (e : Entry) (op : Op) (now : Millis)
    (s' : Session) (T' : Tunnel) : Prop where
  session : s' = step e.cfg (io e.id) e.session op now
  sessions : T'.sessions = T.sessions.map (swap e.cfg.peerId s')
  counters : T'.counters = T.counters
  retired : T'.retired = (retiredOf s'.out).foldl (fun r x => r.add x now) T.retired
  retiredNonces : T'.retiredNonces = T.retiredNonces
  endedNonces : T'.endedNonces = T.endedNonces
  localVip : T'.localVip = T.localVip
  nextId : T'.nextId = T.nextId
  out : T'.out = T.out ++ s'.out.map (fun x => (e.id, x))
  slots : ∀ slot, T'.routes.slots slot =
    if endsIn s'.out = true ∧ T.routes.slots slot = some e.id then none else T.routes.slots slot

theorem call_called (io : SessionId → SessionIo) (op : Op) (now : Millis)
    (hfind : T.find k = some e) :
    Called io T e op now (step e.cfg (io e.id) e.session op now) (T.call io k op now) := by
  obtain ⟨-, hpeer⟩ := find_some hfind
  unfold call
  rw [hfind]
  dsimp only
  generalize hs' : step e.cfg (io e.id) e.session op now = s'
  have hheard : Heard
    { T.update k fun _ => s' with out := T.out ++ s'.out.map (fun x => (e.id, x)) } e now s'.out
      ((T.update k fun _ => s').onEvents now e s'.out) := foldl_heard s'.out
  subst hpeer
  exact ⟨hs'.symm, hheard.sessions, hheard.counters, hheard.retired, hheard.retiredNonces,
    hheard.endedNonces,
    hheard.localVip, hheard.nextId, hheard.out, hheard.slots⟩

theorem call_none (hfind : T.find k = none) : T.call io k op now = T := by
  unfold call
  rw [hfind]

/-! ## Effects -/

/-- What the public operation `a` is made of. A packet is that of the datagram it brought; it
reaches an active session of its sender only, and only under an epoch that is not retired. -/
inductive Effect (io : SessionId → SessionIo) (now : Millis) (a : Action) :
    Tunnel → Tunnel → Prop where
  | called (T : Tunnel) (e : Entry) (op : Op) : T.find e.cfg.peerId = some e →
      (∀ p, op = .receive p → (∃ datagram, a = .onDatagram p.source datagram ∧
          checkCommon datagram = .ok (p.header, p.payload)) ∧
        p.header.peerId = e.cfg.peerId ∧ e.session.active = true ∧
        T.retired.contains p.header.sessionEpoch now = false) →
      Effect io now a T (T.call io e.cfg.peerId op now)
  | counted (T : Tunnel) (c : Counter) : Effect io now a T (T.count c)
  | countedFor (T : Tunnel) (k : U32) (c : Counter) : Effect io now a T (T.countFor k c)
  | erased (T : Tunnel) (e : Entry) : T.find e.cfg.peerId = some e → e.session.active = false →
      Effect io now a T (T.erase e)
  | registered (T : Tunnel) : Effect io now a T (T.registerEnded now)
  | inserted (T : Tunnel) (request : NewSession) (epoch : U32) (nonce : Nonce) :
      (∃ epochDraws nonceDraws, a = .createSession request epochDraws nonceDraws) →
      T.admits request = true →
      Effect io now a T (T.insert (T.newEntry request epoch nonce now))
  | settings (T : Tunnel) (roster : RosterPublisher) (localVip : Option U32) :
      Effect io now a T { T with roster := roster, localVip := localVip }

abbrev Effects (io : SessionId → SessionIo) (now : Millis) (a : Action) : Tunnel → Tunnel → Prop :=
  Relation.ReflTransGen (Effect io now a)

/-! ## The invariant -/

/-- The slots hold exactly the active sessions, each in the slot of its address. -/
structure Invariant (T : Tunnel) : Prop where
  keys : (T.sessions.map (·.cfg.peerId)).Nodup
  ids : (T.sessions.map (·.id)).Nodup
  fresh : ∀ e ∈ T.sessions, e.id < T.nextId
  stamped : ∀ e ∈ T.sessions, e.session.terminalSince.isSome = !e.session.active
  own : ∀ e ∈ T.sessions, e.cfg.peerVirtualIp ≠ e.cfg.localVirtualIp
  routable : ∀ e ∈ T.sessions, (routeIndex e.cfg.peerVirtualIp).isSome
  slots : ∀ slot id, T.routes.slots slot = some id ↔ ∃ e ∈ T.sessions,
    e.id = id ∧ e.session.active = true ∧ routeIndex e.cfg.peerVirtualIp = some slot

theorem Invariant.same_key (hi : Invariant T) {x y : Entry} (hx : x ∈ T.sessions)
    (hy : y ∈ T.sessions) (h : x.cfg.peerId = y.cfg.peerId) :
    x = y := List.inj_on_of_nodup_map hi.keys hx hy h

theorem Invariant.same_id (hi : Invariant T) {x y : Entry} (hx : x ∈ T.sessions)
    (hy : y ∈ T.sessions) (h : x.id = y.id) :
    x = y := List.inj_on_of_nodup_map hi.ids hx hy h

theorem initial_invariant : Invariant {} where
  keys := List.nodup_nil
  ids := List.nodup_nil
  fresh := by simp
  stamped := by simp
  own := by simp
  routable := by simp
  slots := by simp

/-- A change of the entries that no one can see from the slots. -/
structure SameEntry (g : Entry → Entry) : Prop where
  id : ∀ e, (g e).id = e.id
  cfg : ∀ e, (g e).cfg = e.cfg
  active : ∀ e, (g e).session.active = e.session.active
  since : ∀ e, (g e).session.terminalSince = e.session.terminalSince

theorem Invariant.mapped {g : Entry → Entry} (hi : Invariant T) (hg : SameEntry g)
    (hsessions : T'.sessions = T.sessions.map g) (hroutes : T'.routes = T.routes)
    (hnext : T'.nextId = T.nextId) :
    Invariant T' := by
  have hmem : ∀ {y : Entry}, y ∈ T'.sessions → ∃ x ∈ T.sessions, g x = y := by
    intro y hy
    rw [hsessions] at hy
    exact List.mem_map.mp hy
  constructor
  · rw [hsessions, List.map_map]
    simpa only [Function.comp_def, hg.cfg] using hi.keys
  · rw [hsessions, List.map_map]
    simpa only [Function.comp_def, hg.id] using hi.ids
  · intro y hy
    obtain ⟨x, hx, rfl⟩ := hmem hy
    rw [hg.id, hnext]
    exact hi.fresh x hx
  · intro y hy
    obtain ⟨x, hx, rfl⟩ := hmem hy
    rw [hg.since, hg.active]
    exact hi.stamped x hx
  · intro y hy
    obtain ⟨x, hx, rfl⟩ := hmem hy
    rw [hg.cfg]
    exact hi.own x hx
  · intro y hy
    obtain ⟨x, hx, rfl⟩ := hmem hy
    rw [hg.cfg]
    exact hi.routable x hx
  · intro slot id
    rw [hroutes, hi.slots, hsessions]
    constructor
    · rintro ⟨x, hx, hid, hactive, hindex⟩
      exact ⟨g x, List.mem_map_of_mem hx, by
        rw [hg.id, hid], by rw [hg.active, hactive], by rw [hg.cfg, hindex]⟩
    · rintro ⟨y, hy, hid, hactive, hindex⟩
      obtain ⟨x, hx, rfl⟩ := List.mem_map.mp hy
      rw [hg.id] at hid
      rw [hg.active] at hactive
      rw [hg.cfg] at hindex
      exact ⟨x, hx, hid, hactive, hindex⟩

theorem Called.invariant {s' : Session} (hi : Invariant T) (he : e ∈ T.sessions)
    (hc : Called io T e op now s' T') : Invariant T' := by
  have hr : Reported e.session op now s' := hc.session ▸ step_reported e.session op now
  have hmem : ∀ {y : Entry}, y ∈ T'.sessions → ∃ x ∈ T.sessions, swap e.cfg.peerId s' x = y := by
    intro y hy
    rw [hc.sessions] at hy
    exact List.mem_map.mp hy
  have hself : swap e.cfg.peerId s' e = { e with session := s' } := if_pos rfl
  have hother : ∀ x ∈ T.sessions, x ≠ e → swap e.cfg.peerId s' x = x :=
    fun x hx hne => if_neg fun h => hne (hi.same_key hx he h)
  constructor
  · rw [hc.sessions, List.map_map]
    simpa only [Function.comp_def, swap_cfg] using hi.keys
  · rw [hc.sessions, List.map_map]
    simpa only [Function.comp_def, swap_id] using hi.ids
  · intro y hy
    obtain ⟨x, hx, rfl⟩ := hmem hy
    rw [swap_id, hc.nextId]
    exact hi.fresh x hx
  · intro y hy
    obtain ⟨x, hx, rfl⟩ := hmem hy
    by_cases hxe : x = e
    · subst hxe
      rw [hself]
      have hstamped := hi.stamped x hx
      have hstays := hr.stays
      dsimp only
      rw [hr.since]
      cases hactive : x.session.active <;> cases hactive' : s'.active <;> simp_all
    · rw [hother x hx hxe]
      exact hi.stamped x hx
  · intro y hy
    obtain ⟨x, hx, rfl⟩ := hmem hy
    rw [swap_cfg]
    exact hi.own x hx
  · intro y hy
    obtain ⟨x, hx, rfl⟩ := hmem hy
    rw [swap_cfg]
    exact hi.routable x hx
  · intro slot id
    rw [hc.slots, hr.ends, hc.sessions]
    constructor
    · intro hslot
      split_ifs at hslot with hended
      obtain ⟨x, hx, hid, hactive, hindex⟩ := (hi.slots slot id).mp hslot
      refine ⟨_, List.mem_map_of_mem hx, by rw [swap_id, hid], ?_, by rw [swap_cfg, hindex]⟩
      by_cases hxe : x = e
      · subst hxe
        rw [hself]
        by_contra hnot
        rw [Bool.not_eq_true] at hnot
        exact hended ⟨by rw [hactive, hnot]; rfl, by rw [hslot, hid]⟩
      · rw [hother x hx hxe]
        exact hactive
    · rintro ⟨y, hy, hid, hactive, hindex⟩
      obtain ⟨x, hx, rfl⟩ := List.mem_map.mp hy
      rw [swap_id] at hid
      rw [swap_cfg] at hindex
      by_cases hxe : x = e
      · subst hxe
        rw [hself] at hactive
        have hbefore : x.session.active = true := by
          by_contra hnot
          rw [Bool.not_eq_true] at hnot
          rw [hr.stays hnot] at hactive
          cases hactive
        rw [if_neg]
        · exact (hi.slots slot id).mpr ⟨x, hx, hid, hbefore, hindex⟩
        · rintro ⟨hended, -⟩
          rw [hactive, Bool.not_true, Bool.and_false] at hended
          cases hended
      · rw [hother x hx hxe] at hactive
        have hslot := (hi.slots slot id).mpr ⟨x, hx, hid, hactive, hindex⟩
        rw [if_neg]
        · exact hslot
        · rintro ⟨-, hsame⟩
          rw [hslot] at hsame
          exact hxe (hi.same_id hx he (hid.trans (Option.some.inj hsame)))

theorem countFor_same (c : Counter) : SameEntry (fun e =>
    if e.cfg.peerId = k then { e with session := e.session.count c } else e) := by
  constructor <;> intro e <;> split_ifs <;> rfl

theorem registered_same : SameEntry (fun e =>
    if e.session.active then e else { e with epochRetired := true, nonceRetired := true }) := by
  constructor <;> intro e <;> split_ifs <;> rfl

theorem mem_erase (hi : Invariant T) (he : e ∈ T.sessions) {x : Entry} :
    x ∈ (T.erase e).sessions ↔ x ∈ T.sessions ∧ x ≠ e := by
  refine List.mem_filter.trans (and_congr_right fun hx => ?_)
  rw [decide_eq_true_eq]
  exact ⟨fun h hxe => h (hxe ▸ rfl), fun h hkey => h (hi.same_key hx he hkey)⟩

theorem erase_invariant (hi : Invariant T) (he : e ∈ T.sessions)
    (hended : e.session.active = false) :
    Invariant (T.erase e) := by
  have hsub : (T.erase e).sessions.Sublist T.sessions := List.filter_sublist
  constructor
  · exact hi.keys.sublist (hsub.map _)
  · exact hi.ids.sublist (hsub.map _)
  · exact fun x hx => hi.fresh x (hsub.subset hx)
  · exact fun x hx => hi.stamped x (hsub.subset hx)
  · exact fun x hx => hi.own x (hsub.subset hx)
  · exact fun x hx => hi.routable x (hsub.subset hx)
  · intro slot id
    refine (hi.slots slot id).trans ⟨?_, ?_⟩
    · rintro ⟨x, hx, hid, hactive, hindex⟩
      refine ⟨x, (mem_erase hi he).mpr ⟨hx, ?_⟩, hid, hactive, hindex⟩
      rintro rfl
      rw [hended] at hactive
      cases hactive
    · rintro ⟨x, hx, hid, hactive, hindex⟩
      exact ⟨x, ((mem_erase hi he).mp hx).1, hid, hactive, hindex⟩

theorem admits_iff {request : NewSession} : T.admits request = true ↔
    (∀ x, T.find request.peerId = some x → x.session.active = false) ∧
      (∃ slot, routeIndex request.peerVirtualIp = some slot ∧ T.routes.slots slot = none) ∧
      request.peerVirtualIp ≠ request.localVirtualIp := by
  unfold admits route Router.lookup
  cases T.find request.peerId with
  | none =>
    cases routeIndex request.peerVirtualIp with
    | none => simp
    | some slot => simp [and_comm]
  | some x =>
    cases routeIndex request.peerVirtualIp with
    | none => simp
    | some slot =>
      cases hactive : x.session.active <;> simp [hactive, and_comm]

theorem insert_invariant {request : NewSession} {epoch : U32} {nonce : Nonce} (hi : Invariant T)
    (hadmits : T.admits request = true) :
    Invariant (T.insert (T.newEntry request epoch nonce now)) := by
  obtain ⟨hinactive, ⟨slot₀, hslot₀, hempty⟩, hown⟩ := admits_iff.mp hadmits
  generalize hnew : T.newEntry request epoch nonce now = n
  have hid : n.id = T.nextId := by rw [← hnew]; rfl
  have hkey : n.cfg.peerId = request.peerId := by rw [← hnew]; rfl
  have hvip : n.cfg.peerVirtualIp = request.peerVirtualIp := by rw [← hnew]; rfl
  have hlocal : n.cfg.localVirtualIp = request.localVirtualIp := by rw [← hnew]; rfl
  have hfresh : n.session = create now := by rw [← hnew]; rfl
  have hperm : (T.insert n).sessions.Perm (n :: T.sessions.filter (·.cfg.peerId ≠ n.cfg.peerId)) :=
    List.perm_orderedInsert _ _ _
  have hmem : ∀ x, x ∈ (T.insert n).sessions ↔
    x = n ∨ x ∈ T.sessions ∧ x.cfg.peerId ≠ request.peerId := by
    intro x
    rw [hperm.mem_iff, List.mem_cons, List.mem_filter, decide_eq_true_eq, hkey]
  have hold : ∀ x ∈ T.sessions, x.session.active = true → x.cfg.peerId ≠ request.peerId := by
    intro x hx hactive hsame
    have hfind := find_of_mem hi.keys hx
    rw [hsame] at hfind
    rw [hinactive x hfind] at hactive
    cases hactive
  have hroutes : ∀ slot, (T.insert n).routes.slots slot =
      if slot = slot₀ then some T.nextId else T.routes.slots slot := by
    intro slot
    simp only [insert, Router.assign, hvip, hslot₀, hempty, hid, Option.isSome_none,
      Bool.false_eq_true, if_false,
      Function.update_apply]
  constructor
  · refine (hperm.map _).nodup_iff.mpr
      (List.nodup_cons.mpr ⟨?_, hi.keys.sublist (List.filter_sublist.map _)⟩)
    intro hin
    obtain ⟨x, hx, hsame⟩ := List.mem_map.mp hin
    exact of_decide_eq_true (List.mem_filter.mp hx).2 hsame
  · refine (hperm.map _).nodup_iff.mpr
      (List.nodup_cons.mpr ⟨?_, hi.ids.sublist (List.filter_sublist.map _)⟩)
    intro hin
    obtain ⟨x, hx, hsame⟩ := List.mem_map.mp hin
    exact Nat.ne_of_lt (hi.fresh x (List.mem_filter.mp hx).1) (hsame.trans hid)
  · intro x hx
    change x.id < T.nextId + 1
    rcases (hmem x).mp hx with rfl | ⟨hx, -⟩
    · rw [hid]
      exact Nat.lt_succ_self _
    · exact Nat.lt_succ_of_lt (hi.fresh x hx)
  · intro x hx
    rcases (hmem x).mp hx with rfl | ⟨hx, -⟩
    · rw [hfresh]
      rfl
    · exact hi.stamped x hx
  · intro x hx
    rcases (hmem x).mp hx with rfl | ⟨hx, -⟩
    · rw [hvip, hlocal]
      exact hown
    · exact hi.own x hx
  · intro x hx
    rcases (hmem x).mp hx with rfl | ⟨hx, -⟩
    · rw [hvip, hslot₀]
      rfl
    · exact hi.routable x hx
  · intro slot id
    rw [hroutes]
    constructor
    · intro hslot
      split_ifs at hslot with hat
      · refine ⟨n, (hmem n).mpr (.inl rfl), hid.trans (Option.some.inj hslot), ?_, by
          rw [hvip, hslot₀, hat]⟩
        rw [hfresh]
        rfl
      · obtain ⟨x, hx, hxid, hactive, hindex⟩ := (hi.slots slot id).mp hslot
        exact ⟨x, (hmem x).mpr (.inr ⟨hx, hold x hx hactive⟩), hxid, hactive, hindex⟩
    · rintro ⟨x, hx, hxid, hactive, hindex⟩
      rcases (hmem x).mp hx with rfl | ⟨hx, -⟩
      · rw [hvip, hslot₀] at hindex
        rw [if_pos (Option.some.inj hindex).symm, ← hid, hxid]
      · have hslot := (hi.slots slot id).mpr ⟨x, hx, hxid, hactive, hindex⟩
        rw [if_neg]
        · exact hslot
        · rintro rfl
          rw [hempty] at hslot
          cases hslot

theorem call_invariant (hi : Invariant T) : Invariant (T.call io k op now) := by
  cases hfind : T.find k with
  | none =>
    rw [call_none hfind]
    exact hi
  | some e => exact (call_called io op now hfind).invariant hi (find_some hfind).1

theorem Effect.invariant (h : Effect io now a T T') (hi : Invariant T) : Invariant T' := by
  cases h with
  | called e op _ _ => exact call_invariant hi
  | counted c => exact ⟨hi.keys, hi.ids, hi.fresh, hi.stamped, hi.own, hi.routable, hi.slots⟩
  | countedFor k c => exact hi.mapped (countFor_same c) rfl rfl rfl
  | erased e hfind hended => exact erase_invariant hi (find_some hfind).1 hended
  | registered => exact hi.mapped registered_same rfl rfl rfl
  | inserted request epoch nonce _ hadmits => exact insert_invariant hi hadmits
  | settings roster localVip =>
    exact ⟨hi.keys, hi.ids, hi.fresh, hi.stamped, hi.own, hi.routable, hi.slots⟩

theorem Effects.invariant (h : Effects io now a T T') (hi : Invariant T) : Invariant T' := by
  induction h with
  | refl => exact hi
  | tail _ hlast ih => exact hlast.invariant ih

/-! ## Retention -/

/-- The entry is the first of the list to have ended; there is none when no entry has ended. -/
def IsOldest (l : List Entry) : Option Entry → Prop
  | none => ∀ x ∈ l, x.session.terminalSince = none
  | some e => e ∈ l ∧ ∃ since, e.session.terminalSince = some since ∧
      ∀ x ∈ l, ∀ t, x.session.terminalSince = some t → since ≤ t

theorem older_isOldest {l : List Entry} {best : Option Entry} (h : IsOldest l best) (e : Entry) :
    IsOldest (l ++ [e]) (older best e) := by
  unfold older
  cases he : e.session.terminalSince with
  | none =>
    cases best with
    | none =>
      intro x hx
      rcases List.mem_append.mp hx with hx | hx
      · exact h x hx
      · rw [List.mem_singleton.mp hx, he]
    | some b =>
      obtain ⟨hb, since, hsince, hmin⟩ := h
      refine ⟨List.mem_append_left _ hb, since, hsince, ?_⟩
      intro x hx t ht
      rcases List.mem_append.mp hx with hx | hx
      · exact hmin x hx t ht
      · rw [List.mem_singleton.mp hx, he] at ht
        cases ht
  | some t₀ =>
    cases best with
    | none =>
      refine ⟨List.mem_append_right _ (List.mem_singleton_self e), t₀, he, ?_⟩
      intro x hx t ht
      rcases List.mem_append.mp hx with hx | hx
      · rw [h x hx] at ht
        cases ht
      · rw [List.mem_singleton.mp hx, he] at ht
        exact (Option.some.inj ht).le
    | some b =>
      obtain ⟨hb, since, hsince, hmin⟩ := h
      dsimp only
      rw [hsince, Option.any_some]
      by_cases hlt : t₀ < since
      · rw [if_pos (by simpa using hlt)]
        refine ⟨List.mem_append_right _ (List.mem_singleton_self e), t₀, he, ?_⟩
        intro x hx t ht
        rcases List.mem_append.mp hx with hx | hx
        · exact hlt.le.trans (hmin x hx t ht)
        · rw [List.mem_singleton.mp hx, he] at ht
          exact (Option.some.inj ht).le
      · rw [if_neg (by simpa using hlt)]
        refine ⟨List.mem_append_left _ hb, since, hsince, ?_⟩
        intro x hx t ht
        rcases List.mem_append.mp hx with hx | hx
        · exact hmin x hx t ht
        · rw [List.mem_singleton.mp hx, he] at ht
          rw [← Option.some.inj ht]
          exact not_lt.mp hlt

theorem oldest_isOldest (T : Tunnel) : IsOldest T.sessions T.oldest := by
  unfold oldest
  induction T.sessions using List.reverseRecOn with
  | nil =>
    intro x hx
    cases hx
  | append_singleton l e ih =>
    rw [List.foldl_append]
    exact older_isOldest ih e

theorem Invariant.inactive_of_since (hi : Invariant T) (he : e ∈ T.sessions)
    (h : e.session.terminalSince.isSome) : e.session.active = false := by
  have hstamped := hi.stamped e he
  rw [h] at hstamped
  simpa using hstamped.symm

theorem erase_effect (hi : Invariant T) (he : e ∈ T.sessions) (hended : e.session.active = false) :
    Effect io now a T (T.erase e) := .erased T e (find_of_mem hi.keys he) hended

/-- The cap erases ended sessions only, and always the oldest of them. -/
theorem enforceRetentionCap_induct {P : Tunnel → Tunnel → Prop} (hrefl : ∀ T, P T T)
    (hstep : ∀ T e T', Invariant T → IsOldest T.sessions (some e) → e.session.active = false →
      P (T.erase e) T' → P T T') (hi : Invariant T) (fuel : ℕ) :
      P T (enforceRetentionCap fuel T) := by
  induction fuel generalizing T with
  | zero => exact hrefl T
  | succ fuel ih =>
    unfold enforceRetentionCap
    by_cases hfew : T.terminalCount ≤ maxPeers - 1
    · rw [if_pos hfew]
      exact hrefl T
    · rw [if_neg hfew]
      have holdest := oldest_isOldest T
      cases heq : T.oldest with
      | none => exact hrefl T
      | some e =>
        rw [heq] at holdest
        obtain ⟨he, since, hsince, -⟩ := id holdest
        have hended := hi.inactive_of_since he (by rw [hsince]; rfl)
        exact hstep T e _ hi holdest hended (ih (erase_invariant hi he hended))

/-- What the cap leaves: everything else went before it. -/
structure Capped (T T' : Tunnel) : Prop where
  out : T'.out = T.out
  kept : ∀ x ∈ T'.sessions, x ∈ T.sessions
  oldest_first : ∀ e ∈ T.sessions, e ∉ T'.sessions → ∃ since, e.session.terminalSince = some since ∧
    ∀ x ∈ T'.sessions, ∀ t, x.session.terminalSince = some t → since ≤ t

theorem capped_capped (hi : Invariant T) : Capped T T.capped := by
  refine enforceRetentionCap_induct (P := Capped) ?_ ?_ hi _
  · exact fun T => ⟨rfl, fun _ hx => hx, fun _ he hnot => absurd he hnot⟩
  · intro T e T' hi holdest hended hrest
    obtain ⟨he, since, hsince, hmin⟩ := holdest
    have hkept : ∀ x ∈ T'.sessions, x ∈ T.sessions :=
      fun x hx => ((mem_erase hi he).mp (hrest.kept x hx)).1
    refine ⟨hrest.out, hkept, fun x hx hgone => ?_⟩
    by_cases hxe : x = e
    · subst hxe
      exact ⟨since, hsince, fun y hy => hmin y (hkept y hy)⟩
    · exact hrest.oldest_first x ((mem_erase hi he).mpr ⟨hx, hxe⟩) hgone

theorem capped_effects (hi : Invariant T) : Effects io now a T T.capped := by
  refine enforceRetentionCap_induct (P := Effects io now a) (fun T => .refl) ?_ hi _
  intro T e T' hi holdest hended hrest
  exact .head (erase_effect hi holdest.1 hended) hrest

theorem enforceRetentionCap_count (hi : Invariant T) {fuel : ℕ} (hfuel : T.sessions.length ≤ fuel) :
    (enforceRetentionCap fuel T).terminalCount ≤ maxPeers - 1 := by
  induction fuel generalizing T with
  | zero =>
    have hnil : T.sessions = [] := List.length_eq_zero_iff.mp (Nat.le_zero.mp hfuel)
    rw [enforceRetentionCap, terminalCount, hnil]
    exact Nat.zero_le _
  | succ fuel ih =>
    unfold enforceRetentionCap
    by_cases hfew : T.terminalCount ≤ maxPeers - 1
    · rw [if_pos hfew]
      exact hfew
    · rw [if_neg hfew]
      have holdest := oldest_isOldest T
      cases heq : T.oldest with
      | none =>
        -- no entry has ended, so none is counted
        rw [heq] at holdest
        have hnone : T.terminalCount = 0 := by
          rw [terminalCount, List.countP_eq_zero]
          intro x hx
          have hstamped := hi.stamped x hx
          rw [holdest x hx] at hstamped
          simpa using hstamped
        rw [hnone] at hfew
        exact absurd (Nat.zero_le _) hfew
      | some e =>
        rw [heq] at holdest
        obtain ⟨he, since, hsince, -⟩ := holdest
        have hended := hi.inactive_of_since he (by rw [hsince]; rfl)
        refine ih (erase_invariant hi he hended) ?_
        have hshorter : (T.erase e).sessions.length < T.sessions.length :=
          List.length_filter_lt_length_iff_exists.mpr ⟨e, he, by simp⟩
        omega

theorem capped_count (hi : Invariant T) : T.capped.terminalCount ≤ maxPeers - 1 :=
  enforceRetentionCap_count hi le_rfl

theorem foldl_erase_sessions (l : List Entry) : (l.foldl erase T).sessions =
    T.sessions.filter (fun x => l.all (fun y => x.cfg.peerId ≠ y.cfg.peerId)) := by
  induction l generalizing T with
  | nil => simp
  | cons e l ih =>
    rw [List.foldl_cons, ih, erase, List.filter_filter]
    apply List.filter_congr
    intro x _
    rw [List.all_cons, Bool.and_comm]

theorem foldl_erase_out (l : List Entry) : (l.foldl erase T).out = T.out := by
  induction l generalizing T with
  | nil => rfl
  | cons e l ih => exact ih

theorem foldl_erase_induct {P : Tunnel → Tunnel → Prop} (hrefl : ∀ T, P T T)
    (hstep : ∀ T e T', Invariant T → e ∈ T.sessions → e.session.active = false →
      P (T.erase e) T' → P T T')
    (hi : Invariant T) {l : List Entry} (hl : l.Sublist T.sessions)
    (hended : ∀ x ∈ l, x.session.active = false) :
    P T (l.foldl erase T) := by
  induction l generalizing T with
  | nil => exact hrefl T
  | cons e l ih =>
    have he : e ∈ T.sessions := hl.subset List.mem_cons_self
    have hinactive := hended e List.mem_cons_self
    refine hstep T e _ hi he hinactive (ih (erase_invariant hi he hinactive) ?_ fun x hx => ?_)
    · have hself : l.filter (·.cfg.peerId ≠ e.cfg.peerId) = l := by
        apply List.filter_eq_self.mpr
        intro x hx
        have hnodup := hi.keys.sublist (hl.map _)
        rw [List.map_cons, List.nodup_cons] at hnodup
        rw [decide_eq_true_eq]
        exact fun h => hnodup.1 (h ▸ List.mem_map_of_mem hx)
      have hdrop := ((List.sublist_cons_self e l).trans hl).filter (·.cfg.peerId ≠ e.cfg.peerId)
      rw [hself] at hdrop
      exact hdrop
    · exact hended x (List.mem_cons_of_mem e hx)

theorem foldl_erase_effects (hi : Invariant T) {l : List Entry} (hl : l.Sublist T.sessions)
    (hended : ∀ x ∈ l, x.session.active = false) : Effects io now a T (l.foldl erase T) :=
  foldl_erase_induct (fun _ => .refl)
    (fun _ _ _ hi he hended hrest => .head (erase_effect hi he hended) hrest) hi hl hended

theorem isExpired_since (h : isExpired now e = true) :
    ∃ since, e.session.terminalSince = some since ∧ timeAfter since terminalSessionTtlMs ≤ now := by
  unfold isExpired at h
  cases hsince : e.session.terminalSince with
  | none =>
    rw [hsince] at h
    cases h
  | some since =>
    rw [hsince, Option.any_some, decide_eq_true_eq] at h
    exact ⟨since, rfl, h⟩

theorem expired_ended (hi : Invariant T) :
    ∀ x ∈ T.sessions.filter (isExpired now), x.session.active = false := by
  intro x hx
  obtain ⟨hx, hexpired⟩ := List.mem_filter.mp hx
  obtain ⟨since, hsince, -⟩ := isExpired_since hexpired
  exact hi.inactive_of_since hx (by rw [hsince]; rfl)

theorem eraseExpired_effects (hi : Invariant T) : Effects io now a T (T.eraseExpired now) :=
  foldl_erase_effects hi List.filter_sublist (expired_ended hi)

end Sangtachi.Tunnel
