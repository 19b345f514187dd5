import Sangtachi.Tunnel.Table

/-! # Sessions and slots over every run

Every public operation is a sequence of effects, so the invariant of the table holds in every
state. What leaves the table had ended: a room that is left closes its sessions first, an ended
session goes when its time is over, when it is replaced, or as the oldest of too many. -/
namespace Sangtachi.Tunnel

open Sangtachi.BigEndian Sangtachi.Packet Sangtachi.Peer

variable {io : SessionId → SessionIo} {T T' U : Tunnel} {e e' : Entry} {now : Millis} {k : U32}
  {op : Op} {a : Action}

/-! ## Operations as effects -/

theorem call_effects (hop : ∀ p, op ≠ .receive p) : Effects io now a T (T.call io k op now) := by
  cases hfind : T.find k with
  | none =>
    rw [call_none hfind]
  | some e =>
    obtain ⟨-, rfl⟩ := find_some hfind
    exact .single (.called T e op hfind fun p hp => absurd hp (hop p))

theorem foldl_call_effects (hop : ∀ p, op ≠ .receive p) (peers : List U32) :
    Effects io now a T (peers.foldl (fun T peerId => T.call io peerId op now) T) := by
  induction peers generalizing T with
  | nil => exact .refl
  | cons k rest ih => exact (call_effects hop).trans ih

theorem sendRosters_effects (sends : List RosterSend) :
    Effects io now a T (T.sendRosters io now sends) := by
  induction sends generalizing T with
  | nil => exact .refl
  | cons x rest ih =>
    have hone : Effects io now a T (T.call io x.1 (.sendRoster x.2) now) := call_effects (by simp)
    exact hone.trans (ih (T := T.call io x.1 (.sendRoster x.2) now))

theorem runRoster_effects : Effects io now a T (T.runRoster io now) :=
  .head (.settings T (T.roster.run now T.connected).2 T.localVip) (sendRosters_effects _)

theorem admits_registered (request : NewSession) :
    (T.registerEnded now).admits request = T.admits request := by
  have hfind : (T.registerEnded now).find request.peerId = (T.find request.peerId).map (fun e =>
      if e.session.active then e else { e with epochRetired := true, nonceRetired := true }) := by
    unfold find registerEnded
    dsimp only
    rw [List.find?_map]
    congr 2
    funext x
    simp only [Function.comp_def, registered_same.cfg]
  unfold admits
  rw [hfind, Option.any_map]
  simp only [registered_same.active]
  rfl

/-! ## What the operations do -/

/-- A datagram is counted or taken by the session of its sender. -/
inductive Datagram (io : SessionId → SessionIo) (T : Tunnel) (source : Endpoint)
    (datagram : List U8) (now : Millis) :
    Tunnel → Prop where
  | malformed (err : PacketError) : checkCommon datagram = .error err →
      Datagram io T source datagram now (T.count (PacketError.toCounter err))
  | unknown (header : Header) (payload : List U8) : checkCommon datagram = .ok (header, payload) →
      T.find header.peerId = none → Datagram io T source datagram now (T.count .dropUnknownPeer)
  | retired (header : Header) (payload : List U8) (e : Entry) : checkCommon datagram =
    .ok (header, payload) →
      T.find header.peerId = some e → T.retired.contains header.sessionEpoch now = true →
      Datagram io T source datagram now (T.countFor header.peerId .dropRetiredEpoch)
  | ended (header : Header) (payload : List U8) (e : Entry) : checkCommon datagram =
    .ok (header, payload) →
      T.find header.peerId = some e → T.retired.contains header.sessionEpoch now = false →
      e.session.active = false →
      Datagram io T source datagram now (T.countFor header.peerId .dropTerminalState)
  | received (header : Header) (payload : List U8) (e : Entry) : checkCommon datagram =
    .ok (header, payload) →
      T.find header.peerId = some e → T.retired.contains header.sessionEpoch now = false →
      e.session.active = true →
      Datagram io T source datagram now
        (T.call io header.peerId (.receive ⟨header, payload, source⟩) now).capped

theorem onDatagram_cases (io : SessionId → SessionIo) (T : Tunnel) (source : Endpoint)
    (datagram : List U8) (now : Millis) :
    Datagram io T source datagram now (T.onDatagram io source datagram now) := by
  unfold onDatagram
  split
  · next err hcheck => exact .malformed err hcheck
  · next header payload hcheck =>
    split
    · next hfind => exact .unknown header payload hcheck hfind
    · next e hfind =>
      split_ifs with hretired hended
      · exact .retired header payload e hcheck hfind hretired
      · exact .ended header payload e hcheck hfind (by simpa using hretired) (by simpa using hended)
      · exact .received header payload e hcheck hfind (by simpa using hretired)
          (by simpa using hended)

inductive Created (T : Tunnel) (request : NewSession) (now : Millis) :
    Option SessionId × Tunnel → Prop where
  | refused : T.admits request = false → Created T request now (none, T)
  | undrawn : T.admits request = true → Created T request now (none, T.registerEnded now)
  | created (epoch : U32) (nonce : Nonce) : T.admits request = true →
      (T.registerEnded now).retiredNonces.contains nonce now = false →
      Created T request now
        (some T.nextId,
          (T.registerEnded now).insert ((T.registerEnded now).newEntry request epoch nonce now))

theorem createSession_cases (T : Tunnel) (request : NewSession) (epochDraws : List U32)
    (nonceDraws : List Nonce) (now : Millis) :
    Created T request now (T.createSession request epochDraws nonceDraws now) := by
  unfold createSession
  by_cases hadmits : T.admits request = true
  · rw [hadmits]
    simp only [Bool.not_true, Bool.false_eq_true, if_false]
    split
    · exact .undrawn hadmits
    · split
      · exact .undrawn hadmits
      · next nonce hnonce =>
        have hfree := List.find?_some hnonce
        exact .created _ nonce hadmits (by simpa using hfree)
  · rw [if_pos (by simpa using hadmits)]
    exact .refused (by simpa using hadmits)

inductive DataSent (io : SessionId → SessionIo) (T : Tunnel) (inner : List U8) (now : Millis) :
    TxOutcome × Tunnel → Prop where
  | dropped (c : Counter) : DataSent io T inner now (.dropped, T.count c)
  | notConnected (e : Entry) : e ∈ T.sessions → T.route (read32 inner 16) = some e.id →
      DataSent io T inner now (.dropped, T.countFor e.cfg.peerId .txDropNotConnected)
  | sent (e : Entry) (outcome : TxOutcome) : e ∈ T.sessions →
    T.route (read32 inner 16) = some e.id →
      e.session.state = .connected →
      DataSent io T inner now (outcome, T.call io e.cfg.peerId (.sendData inner) now)

theorem sendData_cases (io : SessionId → SessionIo) (T : Tunnel) (inner : List U8) (now : Millis) :
    DataSent io T inner now (T.sendData io inner now) := by
  unfold sendData
  split_ifs
  · exact .dropped _
  · exact .dropped _
  · exact .dropped _
  · exact .dropped _
  · exact .dropped _
  · split
    · exact .dropped _
    · next e hroute =>
      obtain ⟨id, hid, hfind⟩ := Option.bind_eq_some_iff.mp hroute
      have he := List.mem_of_find?_eq_some hfind
      have hsame : e.id = id := by simpa using List.find?_some hfind
      subst hsame
      split_ifs with hstate
      · exact .notConnected e he hid
      · exact .sent e _ he hid (not_not.mp hstate)

theorem Effect.out (h : Effect io now a T T') : T.out <+: T'.out := by
  cases h with
  | called e op hfind _ =>
    rw [(call_called _ _ _ hfind).out]
    exact List.prefix_append _ _
  | counted c => exact List.prefix_refl _
  | countedFor k c => exact List.prefix_refl _
  | erased e _ _ => exact List.prefix_refl _
  | registered => exact List.prefix_refl _
  | inserted request epoch nonce _ _ => exact List.prefix_refl _
  | settings roster localVip => exact List.prefix_refl _

theorem Effects.out (h : Effects io now a T T') : T.out <+: T'.out := by
  induction h with
  | refl => exact List.prefix_refl _
  | tail _ hlast ih => exact ih.trans hlast.out

/-! ## Closing every session -/

theorem Called.mem {s' : Session} (hi : Invariant T) (hc : Called io T e op now s' T')
    (he : e ∈ T.sessions) {y : Entry} :
    y ∈ T'.sessions ↔ y = { e with session := s' } ∨ y ∈ T.sessions ∧ y ≠ e := by
  have hself : swap e.cfg.peerId s' e = { e with session := s' } := if_pos rfl
  have hother : ∀ x ∈ T.sessions, x ≠ e → swap e.cfg.peerId s' x = x :=
    fun x hx hne => if_neg fun h => hne (hi.same_key hx he h)
  rw [hc.sessions, List.mem_map]
  constructor
  · rintro ⟨x, hx, rfl⟩
    by_cases hxe : x = e
    · subst hxe
      exact .inl hself
    · rw [hother x hx hxe]
      exact .inr ⟨hx, hxe⟩
  · rintro (rfl | ⟨hy, hne⟩)
    · exact ⟨e, he, hself⟩
    · exact ⟨y, hy, hother y hy hne⟩

theorem foldl_close (hi : Invariant T) (peers : List U32)
    (hpeers : ∀ x ∈ T.sessions, x.session.active = true → x.cfg.peerId ∈ peers) :
    (∀ x ∈ (peers.foldl (fun T peerId => T.call io peerId .closeByUser now) T).sessions,
      x.session.active = false) ∧
    ∀ x ∈ T.sessions, x.session.active = true → ∃ before, (x.id, .transition before .closed) ∈
      (peers.foldl (fun T peerId => T.call io peerId .closeByUser now) T).out := by
  induction peers generalizing T with
  | nil =>
    have hnone : ∀ x ∈ T.sessions, x.session.active = false := by
      intro x hx
      by_contra h
      exact absurd (hpeers x hx (by simpa using h)) List.not_mem_nil
    refine ⟨hnone, fun x hx hactive => ?_⟩
    rw [hnone x hx] at hactive
    cases hactive
  | cons k rest ih =>
    rw [List.foldl_cons]
    cases hfind : T.find k with
    | none =>
      rw [call_none hfind]
      refine ih hi fun x hx hactive => ?_
      refine (List.mem_cons.mp (hpeers x hx hactive)).resolve_left ?_
      rintro rfl
      rw [find_of_mem hi.keys hx] at hfind
      cases hfind
    | some e =>
      obtain ⟨he, rfl⟩ := find_some hfind
      have hc := call_called io .closeByUser now hfind
      have hi' := hc.invariant hi he
      have hmem := fun y => hc.mem hi he (y := y)
      have hclosed := step_close (C := e.cfg) (E := io e.id) (T := now) e.session
      have hout := hc.out
      generalize T.call io e.cfg.peerId .closeByUser now = U at hc hi' hmem hout ⊢
      obtain ⟨hnone, hreported⟩ := ih hi' (fun x hx hactive => by
        rcases (hmem x).mp hx with rfl | ⟨hx, hne⟩
        · rw [hclosed.1] at hactive
          cases hactive
        · exact (List.mem_cons.mp (hpeers x hx hactive)).resolve_left fun h =>
            hne (hi.same_key hx he h))
      refine ⟨hnone, fun x hx hactive => ?_⟩
      by_cases hxe : x = e
      · subst hxe
        have hpre :
          U.out <+: (rest.foldl (fun T peerId => T.call io peerId .closeByUser now) U).out :=
          Effects.out (foldl_call_effects (a := .closeAll) (by simp) rest)
        refine ⟨x.session.state, hpre.subset ?_⟩
        rw [hout]
        exact List.mem_append_right _ (List.mem_map_of_mem (hclosed.2 hactive))
      · exact hreported x ((hmem x).mpr (.inr ⟨hx, hxe⟩)) hactive

theorem callAll_close (hi : Invariant T) :
    (∀ x ∈ (T.callAll io .closeByUser now).sessions, x.session.active = false) ∧
    ∀ x ∈ T.sessions, x.session.active = true →
      ∃ before, (x.id, .transition before .closed) ∈ (T.callAll io .closeByUser now).out :=
  foldl_close hi _ fun _ hx _ => List.mem_map_of_mem hx

theorem Datagram.effects {source : Endpoint} {datagram : List U8} (hi : Invariant T)
    (ha : a = .onDatagram source datagram)
    (h : Datagram io T source datagram now T') : Effects io now a T T' := by
  cases h with
  | malformed err _ => exact .single (.counted T _)
  | unknown header payload _ _ => exact .single (.counted T _)
  | retired header payload e _ _ _ => exact .single (.countedFor T _ _)
  | ended header payload e _ _ _ _ => exact .single (.countedFor T _ _)
  | received header payload e hcheck hfind hretired hactive =>
    obtain ⟨-, hpeer⟩ := find_some hfind
    have hcalled :
      Effect io now a T (T.call io header.peerId (.receive ⟨header, payload, source⟩) now) := by
      rw [← hpeer] at hfind ⊢
      refine .called T e _ hfind fun p hp => ?_
      obtain rfl := Op.receive.inj hp
      exact ⟨⟨datagram, ha, hcheck⟩, hpeer.symm, hactive, hretired⟩
    exact .head hcalled (capped_effects (hcalled.invariant hi))

theorem Created.effects {request : NewSession} {epochDraws : List U32} {nonceDraws : List Nonce}
    {result : Option SessionId × Tunnel} (ha : a = .createSession request epochDraws nonceDraws)
    (h : Created T request now result) : Effects io now a T result.2 := by
  cases h with
  | refused _ => exact .refl
  | undrawn _ => exact .single (.registered T)
  | created epoch nonce hadmits _ =>
    exact .head (.registered T) (.single (.inserted _ _ _ _ ⟨epochDraws, nonceDraws, ha⟩
      ((admits_registered request).trans hadmits)))

theorem DataSent.effects {inner : List U8} {result : TxOutcome × Tunnel}
    (h : DataSent io T inner now result) : Effects io now a T result.2 := by
  cases h with
  | dropped c => exact .single (.counted T c)
  | notConnected e _ _ => exact .single (.countedFor T _ _)
  | sent e outcome _ _ _ => exact call_effects (by simp)

theorem Invariant.cleared (hi : Invariant T) : Invariant { T with out := [] } :=
  ⟨hi.keys, hi.ids, hi.fresh, hi.stamped, hi.own, hi.routable, hi.slots⟩

theorem perform_effects (hi : Invariant T) (a : Action) :
    Effects io now a { T with out := [] } (T.perform io a now) := by
  have hclear := hi.cleared
  unfold perform
  generalize ({ T with out := [] } : Tunnel) = U at hclear ⊢
  cases a with
  | createSession request epochDraws nonceDraws =>
    exact (createSession_cases U request epochDraws nonceDraws now).effects rfl
  | onDatagram source datagram =>
    exact (onDatagram_cases io U source datagram now).effects hclear rfl
  | sendData inner => exact (sendData_cases io U inner now).effects
  | runTimers =>
    have hpoll : Effects io now .runTimers U (U.callAll io .poll now) :=
      foldl_call_effects (by simp) _
    have hrun := hpoll.trans runRoster_effects
    have herase := hrun.trans (eraseExpired_effects (Effects.invariant hrun hclear))
    exact herase.trans (capped_effects (Effects.invariant herase hclear))
  | closeAll =>
    have hclose : Effects io now .closeAll U (U.callAll io .closeByUser now) :=
      foldl_call_effects (by simp) _
    exact hclose.trans (capped_effects (Effects.invariant hclose hclear))
  | leaveRoom =>
    have hclose : Effects io now .leaveRoom U (U.callAll io .closeByUser now) :=
      foldl_call_effects (by simp) _
    have herase :=
      hclose.trans (foldl_erase_effects (Effects.invariant hclose hclear) (List.Sublist.refl _)
      (callAll_close hclear).1)
    exact herase.tail (.settings _ _ none)
  | startPunch peerId => exact call_effects (by simp)
  | setLocalVirtualIp virtualIp => exact .single (.settings U U.roster (some virtualIp))
  | startRoster self => exact .single (.settings U (U.roster.start self) U.localVip)
  | setRosterPeers peers => exact .single (.settings U (U.roster.setPeers peers) U.localVip)

theorem run_invariant {h : List Turn} {t : Millis} (hr : Run io h t T) : Invariant T := by
  induction hr with
  | start t => exact initial_invariant
  | turn a now _ _ ih => exact Effects.invariant (perform_effects ih a) ih.cleared

/-! ## What stays in the table -/

def EndReported (id : SessionId) (out : List (SessionId × Event)) : Prop :=
  ∃ before after, isTerminal after = true ∧ (id, .transition before after) ∈ out

/-- The same session later on: it ended at most once, at `now`, and reported it. -/
structure Came (now : Millis) (out : List (SessionId × Event)) (e e' : Entry) : Prop where
  id : e'.id = e.id
  cfg : e'.cfg = e.cfg
  stays : e.session.active = false → e'.session.active = false
  since : e'.session.terminalSince =
    if e.session.active && !e'.session.active then some now else e.session.terminalSince
  reported : e.session.active = true → e'.session.active = false → EndReported e.id out

/-- Every session is still in the table. -/
structure Survives (now : Millis) (T T' : Tunnel) : Prop where
  out : T.out <+: T'.out
  entries : ∀ e ∈ T.sessions, ∃ e' ∈ T'.sessions, Came now T'.out e e'

theorem Came.unmoved {out : List (SessionId × Event)} (hid : e'.id = e.id) (hcfg : e'.cfg = e.cfg)
    (hactive : e'.session.active = e.session.active)
    (hsince : e'.session.terminalSince = e.session.terminalSince) : Came now out e e' := by
  have hnot : (e.session.active && !e'.session.active) = false := by
    rw [hactive]
    cases e.session.active <;> rfl
  constructor
  · exact hid
  · exact hcfg
  · exact fun h => hactive.trans h
  · rw [hnot, hsince]
    rfl
  · intro h h'
    rw [hactive, h] at h'
    cases h'

theorem EndReported.mono {id : SessionId} {out out' : List (SessionId × Event)}
    (h : EndReported id out) (hsub : out <+: out') :
    EndReported id out' := by
  obtain ⟨before, after, hafter, hmem⟩ := h
  exact ⟨before, after, hafter, hsub.subset hmem⟩

theorem Came.trans {out out' : List (SessionId × Event)} {e'' : Entry} (h : Came now out e e')
    (k : Came now out' e' e'') (hsub : out <+: out') : Came now out' e e'' := by
  constructor
  · rw [k.id, h.id]
  · rw [k.cfg, h.cfg]
  · exact fun hended => k.stays (h.stays hended)
  · rw [k.since, h.since]
    have hstays := h.stays
    have kstays := k.stays
    cases hactive : e.session.active <;> cases hactive' : e'.session.active <;>
      cases hactive'' : e''.session.active <;> simp_all
  · intro hactive hended
    cases hmid : e'.session.active with
    | false => exact (h.reported hactive hmid).mono hsub
    | true =>
      rw [← h.id]
      exact k.reported hmid hended

theorem Survives.refl (T : Tunnel) : Survives now T T :=
  ⟨List.prefix_refl _, fun e he => ⟨e, he, .unmoved rfl rfl rfl rfl⟩⟩

theorem Survives.trans (h : Survives now T T') (k : Survives now T' U) : Survives now T U := by
  refine ⟨h.out.trans k.out, fun e he => ?_⟩
  obtain ⟨e', he', hcame⟩ := h.entries e he
  obtain ⟨e'', he'', kcame⟩ := k.entries e' he'
  exact ⟨e'', he'', hcame.trans kcame k.out⟩

theorem survives_same (hsessions : T'.sessions = T.sessions) (hout : T'.out = T.out) :
    Survives now T T' :=
  ⟨hout ▸ List.prefix_refl _, fun e he => ⟨e, hsessions ▸ he, .unmoved rfl rfl rfl rfl⟩⟩

theorem survives_mapped {g : Entry → Entry} (hg : SameEntry g)
    (hsessions : T'.sessions = T.sessions.map g) (hout : T'.out = T.out) :
    Survives now T T' := by
  refine ⟨hout ▸ List.prefix_refl _,
    fun e he => ⟨g e, ?_, .unmoved (hg.id e) (hg.cfg e) (hg.active e) (hg.since e)⟩⟩
  rw [hsessions]
  exact List.mem_map_of_mem he

theorem endsIn_reported {events : List Event} (h : endsIn events = true) :
    ∃ before after, isTerminal after = true ∧ .transition before after ∈ events := by
  obtain ⟨x, hx, hends⟩ := List.any_eq_true.mp h
  cases x with
  | transition before after => exact ⟨before, after, hends, hx⟩
  | sent d => cases hends
  | delivered inner => cases hends
  | retired epoch => cases hends
  | line l => cases hends

theorem call_survives (hi : Invariant T) : Survives now T (T.call io k op now) := by
  cases hfind : T.find k with
  | none =>
    rw [call_none hfind]
    exact .refl T
  | some e =>
    obtain ⟨he, rfl⟩ := find_some hfind
    have hc := call_called io op now hfind
    have hr := step_reported (C := e.cfg) (E := io e.id) e.session op now
    refine ⟨hc.out ▸ List.prefix_append _ _, fun x hx => ?_⟩
    by_cases hxe : x = e
    · subst hxe
      refine ⟨_, (hc.mem hi hx).mpr (.inl rfl), rfl, rfl, hr.stays, hr.since,
        fun hactive hended => ?_⟩
      have hends := hr.ends
      dsimp only at hended
      rw [hactive, hended] at hends
      obtain ⟨before, after, hafter, hmem⟩ := endsIn_reported hends
      refine ⟨before, after, hafter, ?_⟩
      rw [hc.out]
      exact List.mem_append_right _ (List.mem_map_of_mem hmem)
    · exact ⟨x, (hc.mem hi he).mpr (.inr ⟨hx, hxe⟩), .unmoved rfl rfl rfl rfl⟩

theorem foldl_call_survives (hi : Invariant T) (peers : List U32) :
    Survives now T (peers.foldl (fun T peerId => T.call io peerId op now) T) := by
  induction peers generalizing T with
  | nil => exact .refl T
  | cons k rest ih => exact (call_survives hi).trans (ih (call_invariant hi))

theorem sendRosters_survives (hi : Invariant T) (sends : List RosterSend) :
    Survives now T (T.sendRosters io now sends) := by
  induction sends generalizing T with
  | nil => exact .refl T
  | cons x rest ih =>
    exact (call_survives hi).trans (ih (call_invariant hi))

theorem runRoster_survives (hi : Invariant T) : Survives now T (T.runRoster io now) := by
  have hset : Effect io now .runTimers T { T with roster := (T.roster.run now T.connected).2 } :=
    .settings T (T.roster.run now T.connected).2 T.localVip
  have hsame : Survives now T { T with roster := (T.roster.run now T.connected).2 } :=
    survives_same rfl rfl
  exact hsame.trans (sendRosters_survives (hset.invariant hi) _)

/-! ## How many ended sessions stay -/

theorem terminalCount_congr {g : Entry → Entry} (hg : SameEntry g)
    (hsessions : T'.sessions = T.sessions.map g) :
    T'.terminalCount = T.terminalCount := by
  unfold terminalCount
  rw [hsessions, List.countP_map]
  congr 1
  funext x
  simp only [Function.comp_apply, hg.active]

theorem call_terminalCount (hop : op = .startPunch ∨ op.isTraffic = true) (hi : Invariant T) :
    (T.call io k op now).terminalCount = T.terminalCount := by
  cases hfind : T.find k with
  | none => rw [call_none hfind]
  | some e =>
    obtain ⟨he, rfl⟩ := find_some hfind
    have hc := call_called io op now hfind
    have hkeeps := step_keeps_active (C := e.cfg) (E := io e.id) (s := e.session) (T := now) hop
    unfold terminalCount
    rw [hc.sessions, List.countP_map]
    apply List.countP_congr
    intro x hx
    unfold swap
    by_cases hkey : x.cfg.peerId = e.cfg.peerId
    · obtain rfl := hi.same_key hx he hkey
      simp only [Function.comp_apply, if_pos, hkeeps]
    · simp only [Function.comp_apply, if_neg hkey]

theorem insert_terminalCount {request : NewSession} {epoch : U32} {nonce : Nonce} :
    (T.insert (T.newEntry request epoch nonce now)).terminalCount ≤ T.terminalCount := by
  unfold terminalCount insert
  dsimp only
  rw [(List.perm_orderedInsert _ _ _).countP_eq, List.countP_cons]
  have hsub := List.Sublist.countP_le (p := fun e : Entry => !e.session.active) (List.filter_sublist
    (l := T.sessions)
      (p := fun e => e.cfg.peerId ≠ (T.newEntry request epoch nonce now).cfg.peerId))
  have hnew : (!(T.newEntry request epoch nonce now).session.active) = false := rfl
  rw [if_neg (by rw [hnew]; exact Bool.false_ne_true)]
  omega

theorem leaveRoom_sessions : (T.leaveRoom io now).sessions = [] := by
  change ((T.callAll io .closeByUser now).sessions.foldl erase
    (T.callAll io .closeByUser now)).sessions = []
  rw [foldl_erase_sessions, List.filter_eq_nil_iff]
  intro x hx hall
  exact absurd (List.all_eq_true.mp hall x hx) (by simp)

theorem perform_terminalCount (hi : Invariant T) (hcount : T.terminalCount ≤ maxPeers - 1)
    (a : Action) :
    (T.perform io a now).terminalCount ≤ maxPeers - 1 := by
  have hclear := hi.cleared
  have hcount' : ({ T with out := [] } : Tunnel).terminalCount ≤ maxPeers - 1 := hcount
  unfold perform
  generalize ({ T with out := [] } : Tunnel) = U at hclear hcount' ⊢
  cases a with
  | createSession request epochDraws nonceDraws =>
    have hc := createSession_cases U request epochDraws nonceDraws now
    change (U.createSession request epochDraws nonceDraws now).2.terminalCount ≤ maxPeers - 1
    generalize U.createSession request epochDraws nonceDraws now = result at hc ⊢
    have hregistered : (U.registerEnded now).terminalCount = U.terminalCount :=
      terminalCount_congr registered_same rfl
    cases hc with
    | refused _ => exact hcount'
    | undrawn _ => exact hregistered.trans_le hcount'
    | created epoch nonce _ _ => exact insert_terminalCount.trans (hregistered.trans_le hcount')
  | onDatagram source datagram =>
    have hd := onDatagram_cases io U source datagram now
    change (U.onDatagram io source datagram now).terminalCount ≤ maxPeers - 1
    generalize U.onDatagram io source datagram now = V at hd ⊢
    cases hd with
    | malformed err _ => exact hcount'
    | unknown header payload _ _ => exact hcount'
    | retired header payload e _ _ _ =>
      exact (terminalCount_congr (countFor_same _) rfl).trans_le hcount'
    | ended header payload e _ _ _ _ =>
      exact (terminalCount_congr (countFor_same _) rfl).trans_le hcount'
    | received header payload e hcheck hfind hretired hactive =>
      refine capped_count ?_
      obtain ⟨he, hpeer⟩ := find_some hfind
      exact (call_called _ _ _ hfind).invariant hclear he
  | sendData inner =>
    have hd := sendData_cases io U inner now
    change (U.sendData io inner now).2.terminalCount ≤ maxPeers - 1
    generalize U.sendData io inner now = result at hd ⊢
    cases hd with
    | dropped c => exact hcount'
    | notConnected e _ _ => exact (terminalCount_congr (countFor_same _) rfl).trans_le hcount'
    | sent e outcome _ _ _ => exact (call_terminalCount (.inr rfl) hclear).trans_le hcount'
  | runTimers =>
    have hpoll : Effects io now .runTimers U (U.callAll io .poll now) :=
      foldl_call_effects (by simp) _
    have hrun := hpoll.trans runRoster_effects
    have herase := hrun.trans (eraseExpired_effects (Effects.invariant hrun hclear))
    exact capped_count (Effects.invariant herase hclear)
  | closeAll =>
    have hclose : Effects io now .closeAll U (U.callAll io .closeByUser now) :=
      foldl_call_effects (by simp) _
    exact capped_count (Effects.invariant hclose hclear)
  | leaveRoom =>
    change (U.leaveRoom io now).terminalCount ≤ maxPeers - 1
    rw [terminalCount, leaveRoom_sessions]
    exact Nat.zero_le _
  | startPunch peerId => exact (call_terminalCount (.inl rfl) hclear).trans_le hcount'
  | setLocalVirtualIp virtualIp => exact hcount'
  | startRoster self => exact hcount'
  | setRosterPeers peers => exact hcount'

/-! ## What leaves the table -/

theorem mem_eraseExpired (hi : Invariant T) : e ∈ (T.eraseExpired now).sessions ↔
    e ∈ T.sessions ∧ isExpired now e = false := by
  rw [eraseExpired, foldl_erase_sessions, List.mem_filter]
  refine and_congr_right fun he => ?_
  rw [List.all_eq_true]
  constructor
  · intro h
    by_contra hnot
    rw [Bool.not_eq_false] at hnot
    exact absurd (h e (List.mem_filter.mpr ⟨he, hnot⟩)) (by simp)
  · intro h x hx
    obtain ⟨hx, hexpired⟩ := List.mem_filter.mp hx
    rw [decide_eq_true_eq]
    intro hsame
    rw [hi.same_key he hx hsame, hexpired] at h
    cases h

def EndedAt (x : Turn) (e : Entry) (since : Millis) : Prop :=
  e.session.terminalSince = some since ∨
    e.session.active = true ∧ since = x.now ∧ EndReported e.id x.after.out

/-- Why an entry is no longer in the table after a turn. -/
inductive Erased (x : Turn) (e : Entry) : Prop where
  | left : x.action = .leaveRoom →
      (e.session.active = true → ∃ before, (e.id, .transition before .closed) ∈ x.after.out) →
      Erased x e
  | replaced (request : NewSession) (epochDraws : List U32) (nonceDraws : List Nonce) :
      x.action = .createSession request epochDraws nonceDraws → e.cfg.peerId = request.peerId →
      e.session.active = false → Erased x e
  | expired (since : Millis) : x.action = .runTimers → EndedAt x e since →
      timeAfter since terminalSessionTtlMs ≤ x.now → Erased x e
  | evicted (since : Millis) : EndedAt x e since →
      (∀ y ∈ x.after.sessions, ∀ t, y.session.terminalSince = some t → since ≤ t) → Erased x e

theorem Came.endedAt {since : Millis} {x : Turn} (hcame : Came x.now x.after.out e e')
    (hsince : e'.session.terminalSince = some since) (hended : e'.session.active = false) :
    EndedAt x e since := by
  have hmoved := hcame.since
  rw [hsince, hended] at hmoved
  cases hactive : e.session.active with
  | false =>
    rw [hactive] at hmoved
    exact .inl hmoved.symm
  | true =>
    rw [hactive] at hmoved
    exact .inr ⟨hactive, Option.some.inj hmoved, hcame.reported hactive hended⟩

theorem capped_erased {x : Turn} {V : Tunnel} (hs : Survives x.now T V) (hi : Invariant V)
    (hafter : x.after = V.capped) (he : e ∈ T.sessions)
    (hgone : ∀ y ∈ x.after.sessions, y.id ≠ e.id) :
    Erased x e := by
  have hcap := capped_capped hi
  obtain ⟨e', he', hcame⟩ := hs.entries e he
  rw [← hcap.out, ← hafter] at hcame
  obtain ⟨since, hsince, hfirst⟩ := hcap.oldest_first e' he' fun hin =>
    hgone e' (hafter ▸ hin) hcame.id
  refine .evicted since (hcame.endedAt hsince (hi.inactive_of_since he' (by rw [hsince]; rfl))) ?_
  rw [hafter]
  exact hfirst

theorem not_gone {V : Tunnel} (now : Millis) (he : e ∈ T.sessions)
    (hgone : ∀ y ∈ V.sessions, y.id ≠ e.id) (hs : Survives now T V) :
    False := by
  obtain ⟨e', he', hcame⟩ := hs.entries e he
  exact hgone e' he' hcame.id

/-- The table after the timers and the roster, before anything is erased. -/
def ticked (io : SessionId → SessionIo) (T : Tunnel) (now : Millis) : Tunnel :=
  (T.callAll io .poll now).runRoster io now

theorem ticked_effects : Effects io now a T (ticked io T now) :=
  (foldl_call_effects (by simp) _).trans runRoster_effects

theorem ticked_survives (hi : Invariant T) : Survives now T (ticked io T now) := by
  have hpoll : Effects io now .runTimers T (T.callAll io .poll now) :=
    foldl_call_effects (by simp) _
  have hpolled : Survives now T (T.callAll io .poll now) := foldl_call_survives hi _
  exact hpolled.trans (runRoster_survives (Effects.invariant hpoll hi))

theorem runTimers_erased {x : Turn} (hi : Invariant T) (haction : x.action = .runTimers)
    (hafter : x.after = T.runTimers io x.now) (he : e ∈ T.sessions)
    (hgone : ∀ y ∈ x.after.sessions, y.id ≠ e.id) : Erased x e := by
  have hi' : Invariant (ticked io T x.now) :=
    Effects.invariant (ticked_effects (a := .runTimers)) hi
  have herased :
    Effects io x.now x.action (ticked io T x.now) ((ticked io T x.now).eraseExpired x.now) :=
    eraseExpired_effects hi'
  have hi'' := herased.invariant hi'
  have hcap := capped_capped hi''
  have hshape : x.after = ((ticked io T x.now).eraseExpired x.now).capped := hafter
  obtain ⟨e', hin, hcame⟩ := (ticked_survives hi).entries e he
  have hout : x.after.out = (ticked io T x.now).out := by
    rw [hshape, hcap.out]
    exact foldl_erase_out _
  rw [← hout] at hcame
  cases hexpired : isExpired x.now e' with
  | true =>
    obtain ⟨since, hsince, hdue⟩ := isExpired_since hexpired
    exact .expired since haction
      (hcame.endedAt hsince (hi'.inactive_of_since hin (by rw [hsince]; rfl))) hdue
  | false =>
    have hkept := (mem_eraseExpired hi').mpr ⟨hin, hexpired⟩
    obtain ⟨since, hsince, hfirst⟩ :=
      hcap.oldest_first e' hkept fun h => hgone e' (hshape ▸ h) hcame.id
    refine .evicted since
      (hcame.endedAt hsince (hi''.inactive_of_since hkept (by rw [hsince]; rfl))) ?_
    rw [hshape]
    exact hfirst

theorem createSession_erased {x : Turn} {request : NewSession} {epochDraws : List U32}
    {nonceDraws : List Nonce} (hi : Invariant T)
    (haction : x.action = .createSession request epochDraws nonceDraws)
    (hafter : x.after = (T.createSession request epochDraws nonceDraws x.now).2)
    (he : e ∈ T.sessions) (hgone : ∀ y ∈ x.after.sessions, y.id ≠ e.id) :
    Erased x e := by
  have hc := createSession_cases T request epochDraws nonceDraws x.now
  rw [hafter] at hgone
  generalize T.createSession request epochDraws nonceDraws x.now = result at hc hgone
  cases hc with
  | refused _ => exact (not_gone x.now he hgone (survives_same rfl rfl)).elim
  | undrawn _ =>
    exact (not_gone x.now he hgone (survives_mapped registered_same rfl rfl)).elim
  | created epoch nonce hadmits _ =>
    by_cases hsame : e.cfg.peerId = request.peerId
    · refine .replaced request epochDraws nonceDraws haction hsame ((admits_iff.mp hadmits).1 e ?_)
      rw [← hsame]
      exact find_of_mem hi.keys he
    · have hin :
        (if e.session.active then e else { e with epochRetired := true, nonceRetired := true }) ∈
          (T.registerEnded x.now).sessions := List.mem_map_of_mem he
      have hother : (if e.session.active then
        e else { e with epochRetired := true, nonceRetired := true }).cfg.peerId ≠
          request.peerId := by
        rw [registered_same.cfg]
        exact hsame
      have hstill := (List.perm_orderedInsert (fun a b : Entry => a.cfg.peerId ≤ b.cfg.peerId)
        ((T.registerEnded x.now).newEntry request epoch nonce x.now)
        ((T.registerEnded x.now).sessions.filter (·.cfg.peerId ≠ request.peerId))).mem_iff.mpr
        (List.mem_cons_of_mem _ (List.mem_filter.mpr ⟨hin, decide_eq_true hother⟩))
      exact absurd (registered_same.id e) (hgone _ hstill)

theorem onDatagram_erased {x : Turn} {source : Endpoint} {datagram : List U8} (hi : Invariant T)
    (hafter : x.after = T.onDatagram io source datagram x.now) (he : e ∈ T.sessions)
    (hgone : ∀ y ∈ x.after.sessions, y.id ≠ e.id) : Erased x e := by
  have hd := onDatagram_cases io T source datagram x.now
  rw [← hafter] at hd
  generalize hV : x.after = V at hd hgone
  cases hd with
  | malformed err _ => exact (not_gone x.now he hgone (survives_same rfl rfl)).elim
  | unknown header payload _ _ => exact (not_gone x.now he hgone (survives_same rfl rfl)).elim
  | retired header payload y _ _ _ =>
    exact (not_gone x.now he hgone (survives_mapped (countFor_same _) rfl rfl)).elim
  | ended header payload y _ _ _ _ =>
    exact (not_gone x.now he hgone (survives_mapped (countFor_same _) rfl rfl)).elim
  | received header payload y hcheck hfind hretired hactive =>
    have hcalled := call_called io (.receive ⟨header, payload, source⟩) x.now hfind
    rw [← hV] at hgone
    exact capped_erased (call_survives hi) (hcalled.invariant hi (find_some hfind).1) hV he hgone

theorem leaveRoom_erased {x : Turn} (hi : Invariant T) (haction : x.action = .leaveRoom)
    (hafter : x.after = T.leaveRoom io x.now) (he : e ∈ T.sessions) : Erased x e := by
  refine .left haction fun hactive => ?_
  have hout : x.after.out = (T.callAll io .closeByUser x.now).out := by
    rw [hafter]
    exact foldl_erase_out _
  rw [hout]
  exact (callAll_close hi).2 e he hactive

theorem perform_erased (hi : Invariant T) (a : Action) (he : e ∈ T.sessions)
    (hgone : ∀ y ∈ (T.perform io a now).sessions, y.id ≠ e.id) :
    Erased ⟨now, a, T, T.perform io a now⟩ e := by
  have hclear := hi.cleared
  have he' : e ∈ ({ T with out := [] } : Tunnel).sessions := he
  revert hgone
  unfold perform
  generalize ({ T with out := [] } : Tunnel) = U at hclear he' ⊢
  intro hgone
  cases a with
  | createSession request epochDraws nonceDraws =>
    exact createSession_erased hclear rfl rfl he' hgone
  | onDatagram source datagram => exact onDatagram_erased hclear rfl he' hgone
  | sendData inner =>
    have hd := sendData_cases io U inner now
    change ∀ y ∈ (U.sendData io inner now).2.sessions, y.id ≠ e.id at hgone
    generalize U.sendData io inner now = result at hd hgone
    cases hd with
    | dropped c => exact (not_gone now he' hgone (survives_same rfl rfl)).elim
    | notConnected y _ _ =>
      exact (not_gone now he' hgone (survives_mapped (countFor_same _) rfl rfl)).elim
    | sent y outcome _ _ _ => exact (not_gone now he' hgone (call_survives hclear)).elim
  | runTimers => exact runTimers_erased hclear rfl rfl he' hgone
  | closeAll =>
    have hclose : Effects io now .closeAll U (U.callAll io .closeByUser now) :=
      foldl_call_effects (by simp) _
    exact capped_erased (x := ⟨now, .closeAll, T, U.closeAll io now⟩) (foldl_call_survives hclear _)
      (Effects.invariant hclose hclear) rfl he' hgone
  | leaveRoom => exact leaveRoom_erased hclear rfl rfl he'
  | startPunch peerId => exact (not_gone now he' hgone (call_survives hclear)).elim
  | setLocalVirtualIp virtualIp => exact (not_gone now he' hgone (survives_same rfl rfl)).elim
  | startRoster self => exact (not_gone now he' hgone (survives_same rfl rfl)).elim
  | setRosterPeers peers => exact (not_gone now he' hgone (survives_same rfl rfl)).elim

/-! ## Every run -/

theorem run_turn {h : List Turn} {t : Millis} {x : Turn} (hr : Run io h t T) (hx : x ∈ h) :
    ∃ h₀ t₀, Run io h₀ t₀ x.before ∧ t₀ ≤ x.now ∧ x.after = x.before.perform io x.action x.now := by
  induction hr with
  | start t => cases hx
  | @turn h t T a now hr ht ih =>
    rcases List.mem_append.mp hx with hx | hx
    · exact ih hx
    · rw [List.mem_singleton.mp hx]
      exact ⟨h, t, hr, ht, rfl⟩

/-- Every session asked for so far has the own address `v`. -/
def SameLocalVip (v : U32) (h : List Turn) : Prop :=
  ∀ x ∈ h, ∀ request epochDraws nonceDraws,
    x.action = .createSession request epochDraws nonceDraws →
    request.localVirtualIp = v

theorem Effect.localVip {v : U32} (h : Effect io now a T T')
    (ha : ∀ request epochDraws nonceDraws, a = .createSession request epochDraws nonceDraws →
      request.localVirtualIp = v) (hv : ∀ e ∈ T.sessions, e.cfg.localVirtualIp = v) :
    ∀ e ∈ T'.sessions, e.cfg.localVirtualIp = v := by
  intro y hy
  cases h with
  | called e op hfind _ =>
    rw [(call_called _ _ _ hfind).sessions] at hy
    obtain ⟨x, hx, rfl⟩ := List.mem_map.mp hy
    rw [swap_cfg]
    exact hv x hx
  | counted c => exact hv y hy
  | countedFor k c =>
    obtain ⟨x, hx, rfl⟩ := List.mem_map.mp hy
    rw [(countFor_same c).cfg]
    exact hv x hx
  | erased e _ _ => exact hv y (List.mem_filter.mp hy).1
  | registered =>
    obtain ⟨x, hx, rfl⟩ := List.mem_map.mp hy
    rw [registered_same.cfg]
    exact hv x hx
  | inserted request epoch nonce hrequest _ =>
    obtain ⟨epochDraws, nonceDraws, hrequest⟩ := hrequest
    rcases List.mem_cons.mp ((List.perm_orderedInsert _ _ _).mem_iff.mp hy) with rfl | hy
    · exact ha request epochDraws nonceDraws hrequest
    · exact hv y (List.mem_filter.mp hy).1
  | settings roster localVip => exact hv y hy

theorem run_localVip {v : U32} {h : List Turn} {t : Millis} (hr : Run io h t T)
    (hv : SameLocalVip v h) :
    ∀ e ∈ T.sessions, e.cfg.localVirtualIp = v := by
  induction hr with
  | start t =>
    intro e he
    cases he
  | @turn h t T a now hr ht ih =>
    have hbefore := ih fun x hx => hv x (List.mem_append_left _ hx)
    have ha :=
      hv ⟨now, a, T, T.perform io a now⟩ (List.mem_append_right _ (List.mem_singleton_self _))
    have hchain := @perform_effects io _ now (run_invariant hr) a
    generalize T.perform io a now = V at hchain ⊢
    induction hchain with
    | refl => exact hbefore
    | tail _ hlast hmid => exact hlast.localVip ha hmid

theorem run_terminalCount {h : List Turn} {t : Millis} (hr : Run io h t T) :
    T.terminalCount ≤ maxPeers - 1 := by
  induction hr with
  | start t => exact Nat.zero_le _
  | turn a now hr _ ih => exact perform_terminalCount (run_invariant hr) ih a

theorem runTimers_young (hi : Invariant T) {since : Millis} (he : e ∈ (T.runTimers io now).sessions)
    (hsince : e.session.terminalSince = some since) :
    now < timeAfter since terminalSessionTtlMs := by
  have hi' : Invariant (ticked io T now) := Effects.invariant (ticked_effects (a := .runTimers)) hi
  have herased : Effects io now .runTimers (ticked io T now) ((ticked io T now).eraseExpired now) :=
    eraseExpired_effects hi'
  have hkept := (capped_capped (herased.invariant hi')).kept e he
  have hyoung := ((mem_eraseExpired hi').mp hkept).2
  unfold isExpired at hyoung
  rw [hsince, Option.any_some, decide_eq_false_iff_not] at hyoung
  exact not_le.mp hyoung

/-- Slots and active sessions correspond one to one, and everything else in the table has ended:
few of these are kept, the youngest, and none for too long. -/
theorem table_and_slots_agree {h : List Turn} {t : Millis} (hr : Run io h t T) :
    (∀ slot, (T.routes.slots slot).isSome = true ↔ ∃! e, e ∈ T.sessions ∧ e.session.active = true ∧
      routeIndex e.cfg.peerVirtualIp = some slot) ∧
    (∀ slot id, T.routes.slots slot = some id → ∃ e ∈ T.sessions, e.id = id ∧
      e.session.active = true ∧
      routeIndex e.cfg.peerVirtualIp = some slot) ∧
    (∀ e ∈ T.sessions, e.session.active = true → T.route e.cfg.peerVirtualIp = some e.id ∧
      ∃! slot, T.routes.slots slot = some e.id) ∧
    T.routes.slots 0 = none ∧
    (∀ v, SameLocalVip v h → T.route v = none) ∧
    T.terminalCount ≤ maxPeers - 1 ∧
    (∀ x ∈ h, ∀ e ∈ x.before.sessions, (∀ y ∈ x.after.sessions, y.id ≠ e.id) → Erased x e) ∧
    (∀ x ∈ h, x.action = .runTimers →
      ∀ e ∈ x.after.sessions, ∀ since, e.session.terminalSince = some since →
      x.now < since + terminalSessionTtlMs) := by
  have hi := run_invariant hr
  refine ⟨?_, fun slot id hslot => (hi.slots slot id).mp hslot, ?_, ?_, ?_,
    run_terminalCount hr, ?_, ?_⟩
  · intro slot
    constructor
    · intro hsome
      obtain ⟨id, hid⟩ := Option.isSome_iff_exists.mp hsome
      obtain ⟨e, he, rfl, hactive, hindex⟩ := (hi.slots slot id).mp hid
      refine ⟨e, ⟨he, hactive, hindex⟩, ?_⟩
      rintro y ⟨hy, hyactive, hyindex⟩
      have hyslot := (hi.slots slot y.id).mpr ⟨y, hy, rfl, hyactive, hyindex⟩
      exact hi.same_id hy he (Option.some.inj (hyslot.symm.trans hid))
    · rintro ⟨e, ⟨he, hactive, hindex⟩, -⟩
      rw [(hi.slots slot e.id).mpr ⟨e, he, rfl, hactive, hindex⟩]
      rfl
  · intro e he hactive
    obtain ⟨slot, hindex⟩ := Option.isSome_iff_exists.mp (hi.routable e he)
    have hslot := (hi.slots slot e.id).mpr ⟨e, he, rfl, hactive, hindex⟩
    refine ⟨lookup_some.mpr ⟨slot, hindex, hslot⟩, slot, hslot, ?_⟩
    intro other hother
    obtain ⟨y, hy, hid, -, hyindex⟩ := (hi.slots other e.id).mp hother
    obtain rfl := hi.same_id hy he hid
    exact Option.some.inj (hyindex.symm.trans hindex)
  · rw [Option.eq_none_iff_forall_ne_some]
    intro id hslot
    obtain ⟨e, -, -, -, hindex⟩ := (hi.slots 0 id).mp hslot
    exact routeIndex_ne_zero hindex rfl
  · intro v hv
    rw [Option.eq_none_iff_forall_ne_some]
    intro id hroute
    obtain ⟨slot, hindex, hslot⟩ := lookup_some.mp hroute
    obtain ⟨e, he, -, -, heindex⟩ := (hi.slots slot id).mp hslot
    exact hi.own e he ((routeIndex_inj heindex hindex).trans (run_localVip hr hv e he).symm)
  · intro x hx e he hgone
    obtain ⟨h₀, t₀, hbefore, -, hafter⟩ := run_turn hr hx
    obtain ⟨now, a, before, after⟩ := x
    obtain rfl : after = before.perform io a now := hafter
    exact perform_erased (run_invariant hbefore) a he hgone
  · intro x hx haction e he since hsince
    obtain ⟨h₀, t₀, hbefore, -, hafter⟩ := run_turn hr hx
    rw [hafter, haction] at he
    exact (runTimers_young (run_invariant hbefore).cleared he hsince).trans_le (timeAfter_le _ _)

/-- Runs a list of calls after `h`. -/
def play (io : SessionId → SessionIo) (h : List Turn) (T : Tunnel) : List (Action × Millis) →
    List Turn × Tunnel
  | [] => (h, T)
  | (a, now) :: rest => play io (h ++ [⟨now, a, T, T.perform io a now⟩]) (T.perform io a now) rest

/-- The times of a list of calls do not go back. -/
def InOrder : Millis → List (Action × Millis) → Prop
  | _, [] => True
  | t, (_, now) :: rest => t ≤ now ∧ InOrder now rest

def lastCall (t : Millis) (calls : List (Action × Millis)) : Millis :=
  calls.foldl (fun _ c => c.2) t

theorem play_run (calls : List (Action × Millis)) {h : List Turn} {t : Millis} (hr : Run io h t T)
    (ho : InOrder t calls) :
    Run io (play io h T calls).1 (lastCall t calls) (play io h T calls).2 := by
  induction calls generalizing h t T with
  | nil => exact hr
  | cons c rest ih => exact ih (.turn c.1 c.2 hr ho.1) ho.2

def roomIo : SessionId → SessionIo := fun _ => roamIo

def roomRequest (peerId virtualIp : U32) : NewSession where
  localPeerId := 1
  localVirtualIp := 0x0A640001
  peerId := peerId
  peerVirtualIp := virtualIp
  candidates := [roamHome]
  peerIsHost := false

/-- Two peers come, the first one leaves and comes back as a new peer. -/
def roomCalls : List (Action × Millis) :=
  [(.createSession (roomRequest 2 0x0A640002) [7] [nonceOf 1], 0), (.startPunch 2, 0),
   (.createSession (roomRequest 3 0x0A640003) [0, 8] [nonceOf 2], 5), (.runTimers, 20000),
   (.createSession (roomRequest 4 0x0A640002) [9] [nonceOf 1, nonceOf 3], 30000)]

def roomRun : List Turn × Tunnel := play roomIo [] {} roomCalls

theorem room_run : Run roomIo roomRun.1 30000 roomRun.2 :=
  play_run roomCalls (.start 0) (by simp [InOrder, roomCalls])

/-- The slot of the first peer holds the session of the peer that took its address over. -/
theorem room_slot_taken_over : roomRun.2.routes.slots 2 = some 2 ∧
    ∃! e, e ∈ roomRun.2.sessions ∧ e.session.active = true ∧
      routeIndex e.cfg.peerVirtualIp = some 2 :=
  ⟨by decide +kernel, ((table_and_slots_agree room_run).1 2).mp (by decide +kernel)⟩

end Sangtachi.Tunnel
