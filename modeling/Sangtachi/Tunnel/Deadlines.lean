import Sangtachi.Peer.Deadlines
import Sangtachi.Tunnel.Sessions

/-! # Deadlines of the tunnel

The earliest deadline is reported by one scan and served by another. After the timers nothing due is
left, and before the earliest deadline the timers have nothing to do. -/
namespace Sangtachi.Tunnel

open Sangtachi.BigEndian Sangtachi.Packet Sangtachi.Peer
open RosterPublisher (Later Ran)

variable {io : SessionId → SessionIo} {T T' : Tunnel} {e : Entry} {now t d : Millis} {k : U32}
  {op : Op} {a : Action}
  {r : RosterPublisher}

/-! ## What the scan reports -/

theorem earliest_some (h : T.earliestDeadline = some d) :
    (∃ e ∈ T.sessions, nextDeadline e.session = some d) ∨
    (∃ e ∈ T.sessions, ∃ since, e.session.terminalSince = some since ∧
      d = timeAfter since terminalSessionTtlMs) ∨
    T.roster.earliest = some d := by
  rcases earlier_some h with h | h
  · have hmem := (foldl_earlier_some h).resolve_left nofun
    obtain ⟨e, he, hd⟩ := List.mem_flatMap.mp hmem
    simp only [List.mem_cons, List.not_mem_nil, or_false] at hd
    rcases hd with hd | hd
    · exact .inl ⟨e, he, hd.symm⟩
    · obtain ⟨since, hsince, rfl⟩ := Option.map_eq_some_iff.mp hd.symm
      exact .inr (.inl ⟨e, he, since, hsince, rfl⟩)
  · exact .inr (.inr h)

theorem earliest_le (h : (∃ e ∈ T.sessions, nextDeadline e.session = some d) ∨
    (∃ e ∈ T.sessions, ∃ since, e.session.terminalSince = some since ∧
      d = timeAfter since terminalSessionTtlMs) ∨
    T.roster.earliest = some d) : ∃ n, T.earliestDeadline = some n ∧ n ≤ d := by
  have hscan : ∀ {deadlines : List (Option Millis)}, some d ∈ deadlines →
      ∃ n, earlier (deadlines.foldl earlier none) T.roster.earliest = some n ∧ n ≤ d := by
    intro deadlines hd
    obtain ⟨m, hm, hmd⟩ := foldl_earlier_le (a := none) (.inr hd)
    obtain ⟨n, hn, hnm⟩ := earlier_le (b := T.roster.earliest) (.inl hm)
    exact ⟨n, hn, hnm.trans hmd⟩
  rcases h with ⟨e, he, hd⟩ | ⟨e, he, since, hsince, rfl⟩ | h
  · apply hscan
    exact List.mem_flatMap.mpr ⟨e, he, by simp [hd]⟩
  · apply hscan
    exact List.mem_flatMap.mpr ⟨e, he, by simp [hsince]⟩
  · exact earlier_le (.inr h)

theorem roster_earliest_ahead (hclean : r.dirty = false)
    (hlater : ∀ sch ∈ r.schedules, Later now sch) (hd : r.earliest = some d) :
    now < d := by
  unfold RosterPublisher.earliest at hd
  by_cases hself : r.self.isNone = true
  · rw [if_pos hself] at hd
    cases hd
  · rw [if_neg hself, hclean, if_neg Bool.false_ne_true] at hd
    have hmem := (foldl_earlier_some hd).resolve_left nofun
    obtain ⟨sch, hsch, hdue⟩ := List.mem_flatMap.mp hmem
    simp only [List.mem_cons, List.not_mem_nil, or_false] at hdue
    rcases hdue with hdue | hdue
    · exact (hlater sch hsch).period d hdue.symm
    · exact (hlater sch hsch).resend d hdue.symm

theorem roster_later {self : RosterPeer} (hself : r.self = some self)
    (h : ∀ d, r.earliest = some d → now < d) :
    r.dirty = false ∧ ∀ sch ∈ r.schedules, Later now sch := by
  unfold RosterPublisher.earliest at h
  rw [hself, Option.isNone_some, if_neg Bool.false_ne_true] at h
  have hclean : r.dirty = false := by
    by_contra hdirty
    rw [if_pos (by simpa using hdirty)] at h
    exact absurd (h 0 rfl) (Nat.not_lt_zero _)
  rw [hclean, if_neg Bool.false_ne_true] at h
  refine ⟨hclean, fun sch hsch => ?_⟩
  have hdue : ∀ d, some d ∈ [sch.periodDue, sch.resendDue] → now < d := by
    intro d hd
    have hmem : some d ∈ r.schedules.flatMap (fun sch => [sch.periodDue, sch.resendDue]) :=
      List.mem_flatMap.mpr ⟨sch, hsch, hd⟩
    obtain ⟨n, hn, hle⟩ := foldl_earlier_le (a := none) (.inr hmem)
    exact (h n hn).trans_le hle
  constructor
  · intro d hd
    exact hdue d (by simp [hd])
  · intro d hd
    exact hdue d (by simp [hd])

/-! ## Whom the publisher has timers for -/

theorem mem_connected : k ∈ T.connected ↔ ∃ e ∈ T.sessions, e.session.state = .connected ∧
    e.cfg.peerId = k := by
  unfold connected
  rw [List.mem_map]
  constructor
  · rintro ⟨e, he, hk⟩
    obtain ⟨he, hstate⟩ := List.mem_filter.mp he
    exact ⟨e, he, by simpa using hstate, hk⟩
  · rintro ⟨e, he, hstate, hk⟩
    exact ⟨e, List.mem_filter.mpr ⟨he, by simpa using hstate⟩, hk⟩

/-- The publisher has timers for connected sessions only, and for none while it is not active. -/
structure Booked (T : Tunnel) : Prop where
  inactive : T.roster.self = none → T.roster.schedules = []
  connected : ∀ sch ∈ T.roster.schedules, sch.peerId ∈ T.connected

theorem Booked.empty (h : T.roster.schedules = []) : Booked T := by
  refine ⟨fun _ => h, ?_⟩
  intro sch hsch
  rw [h] at hsch
  cases hsch

theorem Booked.kept (hb : Booked T) (hself : T'.roster.self = T.roster.self)
    (hschedules : T'.roster.schedules = T.roster.schedules)
    (hsessions : ∀ e ∈ T.sessions, e.session.state = .connected →
      ∃ e' ∈ T'.sessions, e'.session.state = .connected ∧ e'.cfg.peerId = e.cfg.peerId) :
        Booked T' := by
  refine ⟨fun hnone => hschedules.trans (hb.inactive (hself.symm.trans hnone)), ?_⟩
  intro sch hsch
  rw [hschedules] at hsch
  obtain ⟨e, he, hstate, hk⟩ := mem_connected.mp (hb.connected sch hsch)
  obtain ⟨e', he', hstate', hk'⟩ := hsessions e he hstate
  exact mem_connected.mpr ⟨e', he', hstate', hk'.trans hk⟩

theorem active_of_connected {s : Session} (h : s.state = .connected) : s.active = true := by
  unfold Session.active
  rw [h]
  rfl

theorem not_expired_of_connected (hi : Invariant T) (he : e ∈ T.sessions)
    (h : e.session.state = .connected) :
    e.session.terminalSince = none := by
  have hstamped := hi.stamped e he
  rw [active_of_connected h] at hstamped
  simpa using hstamped

theorem mem_capped_of_connected (hi : Invariant T) (he : e ∈ T.sessions)
    (h : e.session.state = .connected) :
    e ∈ T.capped.sessions := by
  by_contra hgone
  obtain ⟨since, hsince, -⟩ := (capped_capped hi).oldest_first e he hgone
  rw [not_expired_of_connected hi he h] at hsince
  cases hsince

theorem mem_eraseExpired_of_connected (hi : Invariant T) (he : e ∈ T.sessions)
    (h : e.session.state = .connected) : e ∈ (T.eraseExpired now).sessions := by
  refine (mem_eraseExpired hi).mpr ⟨he, ?_⟩
  unfold isExpired
  rw [not_expired_of_connected hi he h]
  rfl

theorem Booked.capped (hb : Booked T) (hi : Invariant T) : Booked T.capped := by
  refine hb.kept (by rw [capped_roster hi]) (by rw [capped_roster hi]) ?_
  intro e he hstate
  exact ⟨e, mem_capped_of_connected hi he hstate, hstate, rfl⟩

theorem Booked.eraseExpired (hb : Booked T) (hi : Invariant T) : Booked (T.eraseExpired now) := by
  have hroster : (T.eraseExpired now).roster = T.roster := foldl_erase_roster _
  refine hb.kept (by rw [hroster]) (by rw [hroster]) ?_
  intro e he hstate
  exact ⟨e, mem_eraseExpired_of_connected hi he hstate, hstate, rfl⟩

theorem Booked.mapped {g : Entry → Entry} (hb : Booked T)
    (hstate : ∀ x, (g x).session.state = x.session.state) (hcfg : ∀ x, (g x).cfg = x.cfg)
    (hsessions : T'.sessions = T.sessions.map g)
    (hroster : T'.roster = T.roster) :
    Booked T' := by
  refine hb.kept (by rw [hroster]) (by rw [hroster]) ?_
  intro e he hconnected
  rw [hsessions]
  exact ⟨g e, List.mem_map_of_mem he, (hstate e).trans hconnected, by rw [hcfg]⟩

theorem Booked.countFor (hb : Booked T) (c : Counter) : Booked (T.countFor k c) := by
  refine hb.mapped (g := fun e => if e.cfg.peerId = k then
    { e with session := e.session.count c } else e) ?_ ?_ rfl rfl
  · intro x
    by_cases hk : x.cfg.peerId = k
    · rw [if_pos hk]
      rfl
    · rw [if_neg hk]
  · intro x
    by_cases hk : x.cfg.peerId = k
    · rw [if_pos hk]
    · rw [if_neg hk]

theorem Booked.registerEnded (hb : Booked T) : Booked (T.registerEnded now) := by
  refine hb.mapped (g := fun e => if e.session.active then
    e else { e with epochRetired := true, nonceRetired := true })
    ?_ registered_same.cfg rfl rfl
  intro x
  by_cases hactive : x.session.active = true
  · rw [if_pos hactive]
  · rw [if_neg hactive]

theorem Booked.call (hb : Booked T) (hi : Invariant T) : Booked (T.call io k op now) := by
  cases hfind : T.find k with
  | none =>
    rw [call_none hfind]
    exact hb
  | some e =>
    obtain ⟨he, hpeer⟩ := find_some hfind
    have hc := call_called io op now hfind
    have hroster : (T.call io k op now).roster =
        heard k T.roster
          (e.session.state, (step e.cfg (io e.id) e.session op now).state) := call_roster hfind
    have hmem := fun y => hc.mem hi he (y := y)
    generalize step e.cfg (io e.id) e.session op now = s' at hc hroster hmem
    generalize T.call io k op now = U at hc hroster hmem ⊢
    have hother : ∀ x ∈ T.sessions, x.session.state = .connected → x ≠ e ∨ s'.state = .connected →
        x.cfg.peerId ∈ U.connected := by
      intro x hx hstate hor
      by_cases hxe : x = e
      · subst hxe
        exact mem_connected.mpr ⟨_, (hmem _).mpr (.inl rfl), hor.resolve_left (fun h => h rfl), rfl⟩
      · exact mem_connected.mpr ⟨x, (hmem x).mpr (.inr ⟨hx, hxe⟩), hstate, rfl⟩
    by_cases hchanged : (e.session.state = .connected) ≠ (s'.state = .connected)
    · have heard : U.roster = T.roster.onConnectedChange k (s'.state = .connected) :=
        hroster.trans (if_pos hchanged)
      rw [ne_eq, eq_iff_iff] at hchanged
      by_cases hself : T.roster.self = none
      · apply Booked.empty
        rw [heard]
        unfold RosterPublisher.onConnectedChange
        rw [if_pos (by rw [hself]; rfl)]
        exact hb.inactive hself
      · have hactive : ¬T.roster.self.isNone = true := by simpa using hself
        rw [RosterPublisher.onConnectedChange, if_neg hactive] at heard
        constructor
        · intro hnone
          rw [heard] at hnone
          exact absurd hnone hself
        · intro sch hsch
          rw [heard] at hsch
          dsimp only at hsch
          by_cases hentered : s'.state = .connected
          · rw [if_pos (by simpa using hentered)] at hsch
            obtain ⟨x, hx, hstate, hk⟩ := mem_connected.mp (hb.connected sch hsch)
            rw [← hk]
            exact hother x hx hstate (.inr hentered)
          · rw [if_neg (by simpa using hentered)] at hsch
            obtain ⟨hsch, hne⟩ := List.mem_filter.mp hsch
            obtain ⟨x, hx, hstate, hk⟩ := mem_connected.mp (hb.connected sch hsch)
            rw [← hk]
            refine hother x hx hstate (.inl ?_)
            rintro rfl
            rw [decide_eq_true_eq] at hne
            exact hne (hk.symm.trans hpeer)
    · have hsame : U.roster = T.roster := hroster.trans (if_neg hchanged)
      rw [ne_eq, not_not, eq_iff_iff] at hchanged
      constructor
      · intro hnone
        rw [hsame] at hnone ⊢
        exact hb.inactive hnone
      · intro sch hsch
        rw [hsame] at hsch
        obtain ⟨x, hx, hstate, hk⟩ := mem_connected.mp (hb.connected sch hsch)
        rw [← hk]
        refine hother x hx hstate ?_
        by_cases hxe : x = e
        · subst hxe
          exact .inr (hchanged.mp hstate)
        · exact .inl hxe

theorem Booked.foldl_call (hb : Booked T) (hi : Invariant T) (peers : List U32) :
    Booked (peers.foldl (fun T peerId => T.call io peerId op now) T) := by
  induction peers generalizing T with
  | nil => exact hb
  | cons k rest ih => exact ih (hb.call hi) (call_invariant hi)

theorem Booked.sendRosters (hb : Booked T) (hi : Invariant T) (sends : List RosterSend) :
    Booked (T.sendRosters io now sends) := by
  induction sends generalizing T with
  | nil => exact hb
  | cons x rest ih =>
    exact ih (T := T.call io x.1 (.sendRoster x.2) now) (hb.call hi) (call_invariant hi)

theorem Booked.ran (hb : Booked T) :
    Booked { T with roster := (T.roster.run now T.connected).2 } := by
  cases hself : T.roster.self with
  | none =>
    rw [RosterPublisher.run_none hself]
    exact hb
  | some self =>
    have hran := RosterPublisher.run_ran hself now T.connected
    constructor
    · intro hnone
      rw [hran.self, hself] at hnone
      cases hnone
    · intro sch hsch
      rcases hran.kept sch hsch with hin | hold
      · exact hin
      · exact hb.connected sch hold

theorem Booked.runRoster (hb : Booked T) (hi : Invariant T) : Booked (T.runRoster io now) :=
  hb.ran.sendRosters hi.republished _

theorem Booked.insert {request : NewSession} {epoch : U32} {nonce : Nonce} (hb : Booked T)
    (hi : Invariant T) (hadmits : T.admits request = true) :
    Booked (T.insert (T.newEntry request epoch nonce now)) := by
  refine hb.kept rfl rfl ?_
  intro e he hstate
  refine ⟨e, ?_, hstate, rfl⟩
  refine (List.perm_orderedInsert _ _ _).mem_iff.mpr
    (List.mem_cons_of_mem _ (List.mem_filter.mpr ⟨he, ?_⟩))
  rw [decide_eq_true_eq]
  intro hsame
  have hkey : e.cfg.peerId = request.peerId := hsame
  have hfind := find_of_mem hi.keys he
  rw [hkey] at hfind
  have hinactive := (admits_iff.mp hadmits).1 e hfind
  rw [active_of_connected hstate] at hinactive
  cases hinactive

theorem perform_booked (hi : Invariant T) (hb : Booked T) (a : Action) :
    Booked (T.perform io a now) := by
  have hclear := hi.cleared
  have hb' : Booked { T with out := [] } := ⟨hb.inactive, hb.connected⟩
  unfold perform
  generalize ({ T with out := [] } : Tunnel) = U at hclear hb' ⊢
  cases a with
  | createSession request epochDraws nonceDraws =>
    have hc := createSession_cases U request epochDraws nonceDraws now
    change Booked (U.createSession request epochDraws nonceDraws now).2
    generalize U.createSession request epochDraws nonceDraws now = result at hc ⊢
    cases hc with
    | refused _ => exact hb'
    | undrawn _ => exact hb'.registerEnded
    | created epoch nonce hadmits _ =>
      exact hb'.registerEnded.insert hclear.registerEnded
        ((admits_registered request).trans hadmits)
  | onDatagram source datagram =>
    have hd := onDatagram_cases io U source datagram now
    change Booked (U.onDatagram io source datagram now)
    generalize U.onDatagram io source datagram now = V at hd ⊢
    cases hd with
    | malformed err _ => exact ⟨hb'.inactive, hb'.connected⟩
    | unknown header payload _ _ => exact ⟨hb'.inactive, hb'.connected⟩
    | retired header payload e _ _ _ => exact hb'.countFor _
    | ended header payload e _ _ _ _ => exact hb'.countFor _
    | received header payload e _ _ _ _ => exact (hb'.call hclear).capped (call_invariant hclear)
  | sendData inner =>
    have hd := sendData_cases io U inner now
    change Booked (U.sendData io inner now).2
    generalize U.sendData io inner now = result at hd ⊢
    cases hd with
    | dropped c => exact ⟨hb'.inactive, hb'.connected⟩
    | notConnected e _ _ => exact hb'.countFor _
    | sent e outcome _ _ _ => exact hb'.call hclear
  | runTimers =>
    have hpoll : Effects io now .runTimers U (U.callAll io .poll now) :=
      foldl_call_effects (by simp) _
    have hrun := hpoll.trans runRoster_effects
    have herase := hrun.trans (eraseExpired_effects (Effects.invariant hrun hclear))
    have hpolled : Booked (U.callAll io .poll now) := hb'.foldl_call hclear _
    exact ((hpolled.runRoster (Effects.invariant hpoll hclear)).eraseExpired
      (Effects.invariant hrun hclear)).capped
      (Effects.invariant herase hclear)
  | closeAll =>
    have hclose : Effects io now .closeAll U (U.callAll io .closeByUser now) :=
      foldl_call_effects (by simp) _
    have hclosed : Booked (U.callAll io .closeByUser now) := hb'.foldl_call hclear _
    exact hclosed.capped (Effects.invariant hclose hclear)
  | leaveRoom => exact Booked.empty rfl
  | startPunch peerId => exact hb'.call hclear
  | setLocalVirtualIp virtualIp => exact ⟨hb'.inactive, hb'.connected⟩
  | startRoster self => exact Booked.empty rfl
  | setRosterPeers peers => exact ⟨hb'.inactive, hb'.connected⟩

theorem run_booked {h : List Turn} (hr : Run io h t T) : Booked T := by
  induction hr with
  | start t => exact Booked.empty rfl
  | turn a now hr _ ih => exact perform_booked (run_invariant hr) ih a

/-! ## After the timers -/

theorem sound_rule (a : Action) : SessionRule io now a (fun e => Sound now e.session)
    (fun _ => True) where
  called := by
    intro e op h _
    exact ⟨step_sound h le_rfl op, fun _ _ => trivial⟩
  counted := by
    intro e c h
    exact h.count c
  registered := by
    intro e h
    exact h
  created := by
    intro T request epoch nonce _
    exact create_sound now

theorem run_sound {h : List Turn} (hr : Run io h t T) : ∀ e ∈ T.sessions, Sound t e.session := by
  have hlater : ∀ t now (e : Entry), t ≤ now → Sound t e.session → Sound now e.session :=
    fun t now e ht hs => hs.later ht
  exact (run_sessions hlater hr fun x _ => sound_rule x.action).1

theorem foldl_poll_ahead (hfits : now + keepaliveIntervalMs < 2 ^ 64) (hi : Invariant T)
    (hsound : ∀ x ∈ T.sessions, Sound now x.session) (peers : List U32)
    (hpeers : ∀ x ∈ T.sessions, x.cfg.peerId ∈ peers ∨ Ahead x.session now) :
    ∀ x ∈ (peers.foldl (fun T peerId => T.call io peerId .poll now) T).sessions,
      Ahead x.session now := by
  induction peers generalizing T with
  | nil => exact fun x hx => (hpeers x hx).resolve_left List.not_mem_nil
  | cons k rest ih =>
    rw [List.foldl_cons]
    cases hfind : T.find k with
    | none =>
      rw [call_none hfind]
      refine ih hi hsound fun x hx => ?_
      apply (hpeers x hx).imp_left
      intro hmem
      refine (List.mem_cons.mp hmem).resolve_left ?_
      rintro rfl
      rw [find_of_mem hi.keys hx] at hfind
      cases hfind
    | some e =>
      obtain ⟨he, rfl⟩ := find_some hfind
      have hc := call_called io .poll now hfind
      have hmem := fun y => hc.mem hi he (y := y)
      refine ih (call_invariant hi) ?_ ?_
      · intro x hx
        rcases (hmem x).mp hx with rfl | ⟨hx, -⟩
        · exact step_sound (hsound e he) le_rfl .poll
        · exact hsound x hx
      · intro x hx
        rcases (hmem x).mp hx with rfl | ⟨hx, hne⟩
        · exact .inr (step_poll_ahead (hsound e he) le_rfl hfits)
        · apply (hpeers x hx).imp_left
          intro hin
          exact (List.mem_cons.mp hin).resolve_left fun h => hne (hi.same_key hx he h)

theorem sendRosters_ahead (hi : Invariant T) (h : ∀ x ∈ T.sessions, Ahead x.session now)
    (sends : List RosterSend) :
    ∀ x ∈ (T.sendRosters io now sends).sessions, Ahead x.session now := by
  induction sends generalizing T with
  | nil => exact h
  | cons y rest ih =>
    refine ih (T := T.call io y.1 (.sendRoster y.2) now) (call_invariant hi) ?_
    cases hfind : T.find y.1 with
    | none =>
      rw [call_none hfind]
      exact h
    | some e =>
      obtain ⟨he, -⟩ := find_some hfind
      intro x hx
      rcases ((call_called io (.sendRoster y.2) now hfind).mem hi he).mp hx with rfl | ⟨hx, -⟩
      · exact step_roster_ahead (h e he) y.2
      · exact h x hx

theorem runRoster_ahead (hi : Invariant T) (h : ∀ x ∈ T.sessions, Ahead x.session now) :
    ∀ x ∈ (T.runRoster io now).sessions, Ahead x.session now := by
  have hi' : Invariant { T with roster := (T.roster.run now T.connected).2 } := hi.republished
  exact sendRosters_ahead hi' h _

theorem runTimers_ahead (hfits : now + keepaliveIntervalMs < 2 ^ 64) (hi : Invariant T)
    (hsound : ∀ x ∈ T.sessions, Sound now x.session) :
    ∀ x ∈ (T.runTimers io now).sessions, Ahead x.session now := by
  have hpoll : Effects io now .runTimers T (T.callAll io .poll now) :=
    foldl_call_effects (by simp) _
  have hpolled := Effects.invariant hpoll hi
  have hrun := hpoll.trans runRoster_effects
  have herase := hrun.trans (eraseExpired_effects (Effects.invariant hrun hi))
  have hahead : ∀ x ∈ (T.callAll io .poll now).sessions, Ahead x.session now :=
    foldl_poll_ahead hfits hi hsound _ fun x hx => .inl (List.mem_map_of_mem hx)
  intro x hx
  have hkept := (capped_capped (Effects.invariant herase hi)).kept x hx
  have hran := ((mem_eraseExpired (Effects.invariant hrun hi)).mp hkept).1
  exact runRoster_ahead hpolled hahead x hran

theorem runTimers_later (hfits : now + rosterIntervalMs < 2 ^ 64) (hi : Invariant T) (hb : Booked T)
    {self : RosterPeer} (hself : (T.runTimers io now).roster.self = some self) :
    (T.runTimers io now).roster.dirty = false ∧
    ∀ sch ∈ (T.runTimers io now).roster.schedules, Later now sch := by
  have hpolled : Booked (T.callAll io .poll now) := hb.foldl_call hi _
  rw [runTimers_roster hi] at hself ⊢
  generalize T.callAll io .poll now = U at hself hpolled ⊢
  cases hactive : U.roster.self with
  | none =>
    rw [RosterPublisher.run_none hactive, hactive] at hself
    cases hself
  | some self' =>
    have hran := RosterPublisher.run_ran hactive now U.connected
    refine ⟨hran.clean, fun sch hsch => hran.later hfits sch hsch ?_⟩
    rcases hran.kept sch hsch with hin | hold
    · exact hin
    · exact hpolled.connected sch hold

/-! ## Before the earliest deadline -/

def forget (e : Entry) : Entry := { e with session := { e.session with out := [] } }

/-- Nothing happened: no call to the outside, and all is as before, up to the order in which the
publisher keeps its timers. -/
structure Untouched (T T' : Tunnel) : Prop where
  rest : T' = { T with sessions := T'.sessions, roster := T'.roster, out := [] }
  sessions : T'.sessions.map forget = T.sessions.map forget
  roster : T'.roster = { T.roster with schedules := T'.roster.schedules }
  schedules : ∀ k, T'.roster.schedule k = T.roster.schedule k

theorem call_quiet (hfind : T.find k = some e)
    (hstep : step e.cfg (io e.id) e.session op now = { e.session with out := [] }) :
    T.call io k op now =
      { T with sessions := T.sessions.map (swap k { e.session with out := [] }) } := by
  unfold call
  rw [hfind]
  dsimp only
  rw [hstep]
  simp only [onEvents, List.map_nil, List.append_nil, List.foldl_nil]
  rfl

theorem swap_forget (hi : Invariant T) (he : e ∈ T.sessions) :
    (T.sessions.map (swap e.cfg.peerId { e.session with out := [] })).map forget =
      T.sessions.map forget := by
  rw [List.map_map]
  apply List.map_congr_left
  intro x hx
  rw [Function.comp_apply]
  by_cases hxe : x.cfg.peerId = e.cfg.peerId
  · obtain rfl := hi.same_key hx he hxe
    unfold swap
    rw [if_pos rfl]
    rfl
  · unfold swap
    rw [if_neg hxe]

theorem foldl_poll_idle (hi : Invariant T) (h : ∀ x ∈ T.sessions, Ahead x.session now)
    (peers : List U32) :
    ∃ sessions, peers.foldl (fun T peerId => T.call io peerId .poll now) T =
      { T with sessions := sessions } ∧
      sessions.map forget = T.sessions.map forget := by
  induction peers generalizing T with
  | nil => exact ⟨T.sessions, rfl, rfl⟩
  | cons k rest ih =>
    rw [List.foldl_cons]
    cases hfind : T.find k with
    | none =>
      rw [call_none hfind]
      exact ih hi h
    | some e =>
      obtain ⟨he, rfl⟩ := find_some hfind
      have hstep : step e.cfg (io e.id) e.session .poll now = { e.session with out := [] } :=
        step_poll_idle (h e he)
      have hcall := call_quiet hfind hstep
      have hi' : Invariant (T.call io e.cfg.peerId .poll now) := call_invariant hi
      have hmem := fun y => (call_called io .poll now hfind).mem hi he (y := y)
      have hsame := swap_forget hi he
      obtain ⟨sessions, hfold, hforget⟩ := ih hi' (by
        intro x hx
        rcases (hmem x).mp hx with rfl | ⟨hx, -⟩
        · rw [hstep]
          exact (h e he).same ⟨rfl, rfl, rfl, rfl, rfl, rfl⟩
        · exact h x hx)
      refine ⟨sessions, ?_, ?_⟩
      · rw [hfold, hcall]
      · rw [hforget, hcall]
        exact hsame

theorem run_idle
    (h : ∀ self, r.self = some self → r.dirty = false ∧ ∀ sch ∈ r.schedules, Later now sch)
    (connected : List U32) : (r.run now connected).1 = [] ∧
      (r.run now connected).2 = { r with schedules := (r.run now connected).2.schedules } ∧
      ∀ k, (r.run now connected).2.schedule k = r.schedule k := by
  by_cases hinactive : r.self = none
  · rw [RosterPublisher.run_none hinactive]
    exact ⟨rfl, rfl, fun k => rfl⟩
  · obtain ⟨self, hself⟩ := Option.ne_none_iff_exists'.mp hinactive
    obtain ⟨hclean, hlater⟩ := h self hself
    rw [RosterPublisher.run_clean hself hclean]
    have hhandled := RosterPublisher.forEach_handled (r := r) (f := RosterPublisher.runOne now)
      (fun _ _ => RosterPublisher.runOne_handled) connected
    obtain ⟨hsends, hsame⟩ := RosterPublisher.forEach_idle
      (fun k sch hsch => hlater sch (RosterPublisher.schedule_some hsch).1) connected
    exact ⟨hsends, hhandled.rest, hsame⟩

theorem eraseExpired_none (h : ∀ x ∈ T.sessions, isExpired now x = false) :
    T.eraseExpired now = T := by
  unfold eraseExpired
  have hnone : T.sessions.filter (isExpired now) = [] := by
    apply List.filter_eq_nil_iff.mpr
    intro x hx
    rw [h x hx]
    exact Bool.false_ne_true
  rw [hnone]
  rfl

theorem runTimers_idle (hi : Invariant T) (hcount : T.terminalCount ≤ maxPeers - 1)
    (hout : T.out = []) (hfits : now + probeTtlMs < 2 ^ 64)
    (hsound : ∀ x ∈ T.sessions, Sound now x.session)
    (hahead : ∀ d, T.earliestDeadline = some d → now < d) : Untouched T (T.runTimers io now) := by
  have hevery : ∀ d, ((∃ e ∈ T.sessions, nextDeadline e.session = some d) ∨
      (∃ e ∈ T.sessions, ∃ since, e.session.terminalSince = some since ∧
        d = timeAfter since terminalSessionTtlMs) ∨
      T.roster.earliest = some d) → now < d := by
    intro d hd
    obtain ⟨n, hn, hle⟩ := earliest_le hd
    exact (hahead n hn).trans_le hle
  have hsessions : ∀ x ∈ T.sessions, Ahead x.session now := fun x hx =>
    ahead_of_next (hsound x hx).ordered hfits fun d hd => hevery d (.inl ⟨x, hx, hd⟩)
  have hroster : ∀ self, T.roster.self = some self →
    T.roster.dirty = false ∧ ∀ sch ∈ T.roster.schedules, Later now sch :=
    fun self hself => roster_later hself fun d hd => hevery d (.inr (.inr hd))
  obtain ⟨sessions, hcallAll, hforget⟩ : ∃ sessions,
    T.callAll io .poll now = { T with sessions := sessions } ∧
      sessions.map forget = T.sessions.map forget := by
    unfold callAll
    exact foldl_poll_idle hi hsessions _
  obtain ⟨hsends, hrest, hschedules⟩ :=
    run_idle hroster ({ T with sessions := sessions } : Tunnel).connected
  have hran : (T.callAll io .poll now).runRoster io now = { T with
      sessions := sessions
      roster := (T.roster.run now ({ T with sessions := sessions } : Tunnel).connected).2 } := by
    rw [hcallAll]
    unfold runRoster
    dsimp only
    rw [hsends]
    rfl
  generalize (T.roster.run now ({ T with sessions := sessions } : Tunnel).connected).2 =
    r at hran hrest hschedules
  have hback : ∀ x ∈ sessions, ∃ y ∈ T.sessions, forget y = forget x := by
    intro x hx
    have hin : forget x ∈ sessions.map forget := List.mem_map_of_mem hx
    rw [hforget] at hin
    exact List.mem_map.mp hin
  have hkept : ((T.callAll io .poll now).runRoster io now).eraseExpired now =
    { T with sessions := sessions, roster := r } := by
    rw [hran]
    apply eraseExpired_none
    intro x hx
    obtain ⟨y, hy, hsame⟩ := hback x hx
    have hsince : x.session.terminalSince = y.session.terminalSince :=
      (congrArg (fun z : Entry => z.session.terminalSince) hsame).symm
    unfold isExpired
    rw [hsince]
    cases hold : y.session.terminalSince with
    | none => rfl
    | some since =>
      rw [Option.any_some, decide_eq_false_iff_not, not_le]
      exact hevery _ (.inr (.inl ⟨y, hy, since, hold, rfl⟩))
  have hfew : ({ T with sessions := sessions, roster := r } : Tunnel).terminalCount ≤
    maxPeers - 1 := by
    have hcounted : ∀ l : List Entry, l.countP (fun e => !e.session.active) =
        (l.map forget).countP (fun e => !e.session.active) := by
      intro l
      rw [List.countP_map]
      rfl
    refine le_trans (le_of_eq ?_) hcount
    unfold terminalCount
    rw [hcounted, hforget, ← hcounted]
  have hdone : T.runTimers io now = { T with sessions := sessions, roster := r } := by
    unfold runTimers
    rw [hkept]
    exact capped_few hfew
  rw [hdone]
  refine ⟨?_, hforget, hrest, hschedules⟩
  dsimp only
  rw [hout]

/-! ## The event loop -/

/-- The event loop does not spin, as long as the clock has room for the longest interval: after the
timers the earliest deadline is none or lies in the future, and timers that do anything at all were
reported as due. -/
theorem timers_never_spin {h : List Turn} (hr : Run io h t T) (hnow : t ≤ now)
    (hfits : now + terminalSessionTtlMs < 2 ^ 64) :
    (∀ d, (T.perform io .runTimers now).earliestDeadline = some d → now < d) ∧
    ((∃ d, T.earliestDeadline = some d ∧ d ≤ now) ∨ Untouched T (T.perform io .runTimers now)) := by
  have hi := run_invariant hr
  have hsound : ∀ x ∈ T.sessions, Sound now x.session := fun x hx => (run_sound hr x hx).later hnow
  have hbooked := run_booked hr
  have hshorter : ∀ interval ≤ terminalSessionTtlMs, now + interval < 2 ^ 64 :=
    fun interval hle => (Nat.add_le_add_left hle now).trans_lt hfits
  constructor
  · intro d hd
    have hafter : T.perform io .runTimers now =
      ({ T with out := [] } : Tunnel).runTimers io now := rfl
    rw [hafter] at hd
    rcases earliest_some hd with ⟨e, he, hd⟩ | ⟨e, he, since, hsince, rfl⟩ | hd
    · exact (runTimers_ahead (hshorter _ (by decide)) hi.cleared hsound e he).next hd
    · exact runTimers_young hi.cleared he hsince
    · cases hself : (({ T with out := [] } : Tunnel).runTimers io now).roster.self with
      | none =>
        unfold RosterPublisher.earliest at hd
        rw [hself, Option.isNone_none, if_pos rfl] at hd
        cases hd
      | some self =>
        obtain ⟨hclean, hlater⟩ := runTimers_later (hshorter _ (by decide)) hi.cleared
          ⟨hbooked.inactive, hbooked.connected⟩ hself
        exact roster_earliest_ahead hclean hlater hd
  · by_cases hdue : ∃ d, T.earliestDeadline = some d ∧ d ≤ now
    · exact .inl hdue
    · right
      have hahead : ∀ d, ({ T with out := [] } : Tunnel).earliestDeadline = some d → now < d := by
        intro d hd
        by_contra hnot
        exact hdue ⟨d, hd, not_lt.mp hnot⟩
      have hfew := run_terminalCount hr
      have hcount : ({ T with out := [] } : Tunnel).terminalCount ≤ maxPeers - 1 := hfew
      have hidle :
        Untouched { T with out := [] } (({ T with out := [] } : Tunnel).runTimers io now) :=
        runTimers_idle hi.cleared hcount rfl (hshorter _ (by decide)) hsound hahead
      exact ⟨hidle.rest, hidle.sessions, hidle.roster, hidle.schedules⟩

/-- Of the room, one session has failed and is kept for its time; nothing else is due before that.
-/
theorem room_never_spins : roomRun.2.earliestDeadline = some 140000 ∧
    (roomRun.2.perform roomIo .runTimers 140000).earliestDeadline = none ∧
    Untouched roomRun.2 (roomRun.2.perform roomIo .runTimers 30001) := by
  have hdue : roomRun.2.earliestDeadline = some 140000 := by decide +kernel
  have hafter : (roomRun.2.perform roomIo .runTimers 140000).earliestDeadline = none := by
    decide +kernel
  refine ⟨hdue, hafter, ?_⟩
  have hquiet : ∀ d, roomRun.2.earliestDeadline = some d → ¬d ≤ 30001 := by
    intro d hd
    rw [hdue] at hd
    rw [← Option.some.inj hd]
    decide
  apply (@timers_never_spin roomIo _ 30001 _ _ room_run (by decide) (by decide)).2.resolve_left
  rintro ⟨d, hd, hle⟩
  exact hquiet d hd hle

end Sangtachi.Tunnel
