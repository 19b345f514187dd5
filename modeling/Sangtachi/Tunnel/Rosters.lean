import Sangtachi.Tunnel.RosterPublisher

/-! # What the roster publisher does

One session at a time: the timers of the others stay, every payload is that of the present roster,
and after the run the timers of every connected session lie in the future, unless their sum came
round. -/
namespace Sangtachi.Tunnel.RosterPublisher

open Sangtachi.BigEndian Sangtachi.Packet Sangtachi.Peer

variable {r r' : RosterPublisher} {now : Millis} {k : U32} {sch : Schedule} {changed : Bool}
  {connected : List U32} {f : RosterPublisher → U32 → List RosterSend × RosterPublisher}

/-! ## Schedules -/

/-- Both timers lie in the future. -/
structure Later (now : Millis) (sch : Schedule) : Prop where
  period : ∀ d, sch.periodDue = some d → now < d
  resend : ∀ d, sch.resendDue = some d → now < d

theorem mem_setSchedule {x : Schedule} : x ∈ (r.setSchedule sch).schedules ↔
    x = sch ∨ x ∈ r.schedules ∧ x.peerId ≠ sch.peerId := by
  simp [setSchedule, or_comm]

theorem setSchedule_schedule : (r.setSchedule sch).schedule k = if sch.peerId = k then
    some sch else r.schedule k := by
  unfold schedule setSchedule
  dsimp only
  rw [List.find?_append]
  by_cases hk : sch.peerId = k
  · rw [if_pos hk]
    have hnone : (r.schedules.filter (·.peerId ≠ sch.peerId)).find? (·.peerId = k) = none := by
      apply List.find?_eq_none.mpr
      intro x hx
      have hne := (List.mem_filter.mp hx).2
      rw [decide_eq_true_eq] at hne ⊢
      intro hsame
      exact hne (hsame.trans hk.symm)
    rw [hnone]
    simp [hk]
  · rw [if_neg hk]
    have hsame : (r.schedules.filter (·.peerId ≠ sch.peerId)).find? (·.peerId = k) =
      r.schedules.find? (·.peerId = k) := by
      rw [List.find?_filter]
      congr 1
      funext x
      by_cases hx : x.peerId = k
      · simp [hx, Ne.symm hk]
      · simp [hx]
    rw [hsame]
    simp [hk]

theorem schedule_some (h : r.schedule k = some sch) : sch ∈ r.schedules ∧ sch.peerId = k :=
  ⟨List.mem_of_find?_eq_some h, by simpa using List.find?_some h⟩

theorem schedule_none (h : r.schedule k = none) : ∀ x ∈ r.schedules, x.peerId ≠ k := by
  intro x hx hk
  have hnot := List.find?_eq_none.mp h x hx
  simp [hk] at hnot

/-! ## One session -/

/-- What handling one session leaves: only schedules change, those of the others do not, and what is
sent goes to that session and is the present payload. -/
structure Handled (r : RosterPublisher) (k : U32)
    (result : List RosterSend × RosterPublisher) : Prop where
  rest : result.2 = { r with schedules := result.2.schedules }
  sends : ∀ x ∈ result.1, x.1 = k ∧ r.payload = some x.2
  others : ∀ x : Schedule, x.peerId ≠ k → (x ∈ result.2.schedules ↔ x ∈ r.schedules)

theorem mem_send {x : RosterSend} (hx : x ∈ (r.send sch now).1) :
    x.1 = sch.peerId ∧ r.payload = some x.2 := by
  obtain ⟨bytes, hbytes, rfl⟩ := List.mem_map.mp hx
  exact ⟨rfl, Option.mem_toList.mp hbytes⟩

theorem setSchedule_handled (sends : List RosterSend) (hpeer : sch.peerId = k)
    (hsends : ∀ x ∈ sends, x.1 = k ∧ r.payload = some x.2) :
    Handled r k (sends, r.setSchedule sch) := by
  refine ⟨rfl, hsends, ?_⟩
  intro x hx
  rw [mem_setSchedule, hpeer]
  constructor
  · rintro (rfl | ⟨hx', -⟩)
    · exact absurd hpeer hx
    · exact hx'
  · intro hx'
    exact .inr ⟨hx', hx⟩

theorem refreshOne_handled : Handled r k (refreshOne changed now r k) := by
  unfold refreshOne
  dsimp only
  have hpeer : ((r.schedule k).getD { peerId := k }).peerId = k := by
    cases hsch : r.schedule k with
    | none => rfl
    | some x => exact (schedule_some hsch).2
  have hsends : ∀ x ∈ (r.send ((r.schedule k).getD { peerId := k }) now).1, x.1 = k ∧
    r.payload = some x.2 := by
    intro x hx
    rw [← hpeer]
    exact mem_send hx
  by_cases hchanged : changed = true
  · rw [if_pos hchanged]
    exact setSchedule_handled _ hpeer hsends
  · rw [if_neg hchanged]
    by_cases hnone : (r.schedule k).isNone = true
    · rw [if_pos hnone]
      exact setSchedule_handled _ hpeer hsends
    · rw [if_neg hnone]
      exact ⟨rfl, (by intro x hx; cases hx), fun x _ => Iff.rfl⟩

/-- The resend of one schedule, where it is due. -/
def resent (r : RosterPublisher) (now : Millis) (sch : Schedule) : List RosterSend × Schedule :=
  if sch.resendDue.any (· ≤ now) then
    ((r.send sch now).1,
      { (r.send sch now).2 with
        resendsLeft := sch.resendsLeft - 1
        resendSince := now
        resendDue :=
          if 0 < sch.resendsLeft - 1 then some (timeAfter now rosterResendIntervalMs) else none })
  else ([], sch)

/-- The period of one schedule, where it is due. -/
def renewed (r : RosterPublisher) (now : Millis) (sch : Schedule) : List RosterSend × Schedule :=
  if sch.periodDue.any (· ≤ now) then r.send sch now else ([], sch)

theorem runOne_some (h : r.schedule k = some sch) : runOne now r k =
    ((r.resent now sch).1 ++ (r.renewed now (r.resent now sch).2).1,
      r.setSchedule (r.renewed now (r.resent now sch).2).2) := by
  unfold runOne
  rw [h]
  rfl

theorem resent_peer : (r.resent now sch).2.peerId = sch.peerId := by
  unfold resent
  split_ifs <;> rfl

theorem renewed_peer : (r.renewed now sch).2.peerId = sch.peerId := by
  unfold renewed
  split_ifs <;> rfl

theorem mem_resent {x : RosterSend} (hx : x ∈ (r.resent now sch).1) :
    x.1 = sch.peerId ∧ r.payload = some x.2 := by
  unfold resent at hx
  by_cases hdue : sch.resendDue.any (· ≤ now)
  · rw [if_pos hdue] at hx
    exact @mem_send r now sch x hx
  · rw [if_neg hdue] at hx
    cases hx

theorem mem_renewed {x : RosterSend} (hx : x ∈ (r.renewed now sch).1) :
    x.1 = sch.peerId ∧ r.payload = some x.2 := by
  unfold renewed at hx
  by_cases hdue : sch.periodDue.any (· ≤ now)
  · rw [if_pos hdue] at hx
    exact mem_send hx
  · rw [if_neg hdue] at hx
    cases hx

theorem runOne_handled : Handled r k (runOne now r k) := by
  cases hsch : r.schedule k with
  | none =>
    unfold runOne
    rw [hsch]
    exact ⟨rfl, (by intro x hx; cases hx), fun x _ => Iff.rfl⟩
  | some sch =>
    obtain ⟨-, hpeer⟩ := schedule_some hsch
    rw [runOne_some hsch]
    apply setSchedule_handled
    · rw [renewed_peer, resent_peer, hpeer]
    · intro x hx
      rcases List.mem_append.mp hx with hx | hx
      · rw [← hpeer]
        exact mem_resent hx
      · rw [← hpeer, ← resent_peer]
        exact mem_renewed hx

theorem any_le_false {d : Option Millis} : d.any (· ≤ now) = false ↔ ∀ x, d = some x → now < x := by
  cases d with
  | none => simp
  | some x => simp

/-- The times of the two timers fit the clock together: the resend is the sooner one. -/
theorem lt_resend (hfits : now + rosterIntervalMs < 2 ^ 64) :
    now < timeAfter now rosterResendIntervalMs :=
  lt_timeAfter (by decide) ((Nat.add_le_add_left (by decide) now).trans_lt hfits)

theorem lt_period (hfits : now + rosterIntervalMs < 2 ^ 64) :
    now < timeAfter now rosterIntervalMs :=
  lt_timeAfter (by decide) hfits

theorem resent_later (hfits : now + rosterIntervalMs < 2 ^ 64) (x : Millis)
    (hx : (r.resent now sch).2.resendDue = some x) : now < x := by
  unfold resent at hx
  by_cases hdue : sch.resendDue.any (· ≤ now)
  · rw [if_pos hdue] at hx
    change (if 0 < sch.resendsLeft - 1 then some (timeAfter now rosterResendIntervalMs) else
      none) = some x at hx
    by_cases hleft : 0 < sch.resendsLeft - 1
    · rw [if_pos hleft] at hx
      rw [← Option.some.inj hx]
      exact lt_resend hfits
    · rw [if_neg hleft] at hx
      cases hx
  · rw [if_neg hdue] at hx
    exact any_le_false.mp (by simpa using hdue) x hx

theorem renewed_later (hfits : now + rosterIntervalMs < 2 ^ 64)
    (h : ∀ d, sch.resendDue = some d → now < d) :
    Later now (r.renewed now sch).2 := by
  unfold renewed
  by_cases hdue : sch.periodDue.any (· ≤ now)
  · rw [if_pos hdue]
    refine ⟨?_, h⟩
    intro d hd
    rw [← Option.some.inj hd]
    exact lt_period hfits
  · rw [if_neg hdue]
    exact ⟨any_le_false.mp (by simpa using hdue), h⟩

theorem runOne_later (hfits : now + rosterIntervalMs < 2 ^ 64) {x : Schedule}
    (hx : x ∈ (runOne now r k).2.schedules) (hpeer : x.peerId = k) : Later now x := by
  cases hsch : r.schedule k with
  | none =>
    unfold runOne at hx
    rw [hsch] at hx
    exact absurd hpeer (schedule_none hsch x hx)
  | some sch =>
    rw [runOne_some hsch] at hx
    rcases mem_setSchedule.mp hx with rfl | ⟨-, hne⟩
    · exact renewed_later hfits (resent_later hfits)
    · rw [renewed_peer, resent_peer, (schedule_some hsch).2] at hne
      exact absurd hpeer hne

theorem runOne_idle (h : ∀ sch, r.schedule k = some sch → Later now sch) : (runOne now r k).1 = [] ∧
    ∀ j, (runOne now r k).2.schedule j = r.schedule j := by
  cases hsch : r.schedule k with
  | none =>
    unfold runOne
    rw [hsch]
    exact ⟨rfl, fun j => rfl⟩
  | some sch =>
    have hlater := h sch hsch
    have hresent : r.resent now sch = ([], sch) := by
      unfold resent
      rw [any_le_false.mpr hlater.resend]
      rfl
    have hrenewed : r.renewed now sch = ([], sch) := by
      unfold renewed
      rw [any_le_false.mpr hlater.period]
      rfl
    rw [runOne_some hsch, hresent, hrenewed]
    refine ⟨rfl, fun j => ?_⟩
    rw [setSchedule_schedule]
    by_cases hj : sch.peerId = j
    · rw [if_pos hj, ← hj, (schedule_some hsch).2, hsch]
    · rw [if_neg hj]

/-! ## One session after the other -/

theorem forEach_cons : forEach f r (k :: connected) =
    ((f r k).1 ++ (forEach f (f r k).2 connected).1, (forEach f (f r k).2 connected).2) := by
  have hacc : ∀ (l : List U32) (acc : List RosterSend) (r : RosterPublisher),
      l.foldl (fun acc peerId => (acc.1 ++ (f acc.2 peerId).1, (f acc.2 peerId).2)) (acc, r) =
        (acc ++ (forEach f r l).1, (forEach f r l).2) := by
    intro l
    induction l with
    | nil =>
      intro acc r
      simp [forEach]
    | cons x rest ih =>
      intro acc r
      unfold forEach
      rw [List.foldl_cons, List.foldl_cons, ih, ih]
      simp [List.append_assoc]
  change connected.foldl (fun acc peerId => (acc.1 ++ (f acc.2 peerId).1, (f acc.2 peerId).2))
    ([] ++ (f r k).1, (f r k).2) = _
  rw [List.nil_append]
  exact hacc connected (f r k).1 (f r k).2

structure HandledAll (r : RosterPublisher) (ks : List U32)
    (result : List RosterSend × RosterPublisher) : Prop where
  rest : result.2 = { r with schedules := result.2.schedules }
  sends : ∀ x ∈ result.1, x.1 ∈ ks ∧ r.payload = some x.2
  others : ∀ x : Schedule, x.peerId ∉ ks → (x ∈ result.2.schedules ↔ x ∈ r.schedules)

theorem payload_congr (h : r' = { r with schedules := r'.schedules }) : r'.payload = r.payload := by
  rw [h]
  rfl

theorem forEach_handled (hf : ∀ r k, Handled r k (f r k)) (ks : List U32) :
    HandledAll r ks (forEach f r ks) := by
  induction ks generalizing r with
  | nil => exact ⟨rfl, (by intro x hx; cases hx), fun x _ => Iff.rfl⟩
  | cons k rest ih =>
    have hone := hf r k
    have hrest := ih (r := (f r k).2)
    rw [forEach_cons]
    generalize f r k = one at hone hrest
    generalize forEach f one.2 rest = all at hrest
    constructor
    · rw [hrest.rest, hone.rest]
    · intro x hx
      rcases List.mem_append.mp hx with hx | hx
      · obtain ⟨hto, hpayload⟩ := hone.sends x hx
        exact ⟨hto ▸ List.mem_cons_self, hpayload⟩
      · obtain ⟨hto, hpayload⟩ := hrest.sends x hx
        exact ⟨List.mem_cons_of_mem k hto, (payload_congr hone.rest).symm.trans hpayload⟩
    · intro x hx
      rw [List.mem_cons, not_or] at hx
      exact (hrest.others x hx.2).trans (hone.others x hx.1)

theorem forEach_later (hfits : now + rosterIntervalMs < 2 ^ 64) {x : Schedule}
    (hx : x ∈ (forEach (runOne now) r connected).2.schedules) (hpeer : x.peerId ∈ connected) :
    Later now x := by
  induction connected generalizing r with
  | nil => cases hpeer
  | cons k rest ih =>
    rw [forEach_cons] at hx
    by_cases hrest : x.peerId ∈ rest
    · exact ih hx hrest
    · have hk : x.peerId = k := (List.mem_cons.mp hpeer).resolve_right hrest
      have hhandled :
        HandledAll (runOne now r k).2 rest (forEach (runOne now) (runOne now r k).2 rest) :=
        forEach_handled (fun _ _ => runOne_handled) rest
      exact runOne_later hfits ((hhandled.others x hrest).mp hx) hk

theorem forEach_idle (h : ∀ k sch, r.schedule k = some sch → Later now sch) (ks : List U32) :
    (forEach (runOne now) r ks).1 = [] ∧
      ∀ j, (forEach (runOne now) r ks).2.schedule j = r.schedule j := by
  induction ks generalizing r with
  | nil => exact ⟨rfl, fun j => rfl⟩
  | cons k rest ih =>
    obtain ⟨hsends, hsame⟩ := runOne_idle (h k)
    obtain ⟨hsends', hsame'⟩ := ih (r := (runOne now r k).2) (by
      intro j sch hsch
      rw [hsame] at hsch
      exact h j sch hsch)
    rw [forEach_cons]
    exact ⟨by rw [hsends, hsends']; rfl, fun j => (hsame' j).trans (hsame j)⟩

/-! ## A run -/

/-- The publisher once the members are looked at again, before anything is sent. -/
def reviewed (r : RosterPublisher) (self : RosterPeer) (connected : List U32) : RosterPublisher :=
  { r with
    schedules := r.schedules.filter (fun sch => sch.peerId ∈ connected)
    forcedChange := false
    last := some (build self r.peers connected)
    generation := if r.forcedChange || r.last ≠ some (build self r.peers connected) then
      r.generation + 1 else r.generation
    dirty := false }

theorem run_none (h : r.self = none) : r.run now connected = ([], r) := by
  unfold run
  rw [h]

theorem run_clean {self : RosterPeer} (h : r.self = some self) (hdirty : r.dirty = false) :
    r.run now connected = forEach (runOne now) r connected := by
  unfold run
  rw [h, hdirty]
  rfl

theorem run_dirty {self : RosterPeer} (h : r.self = some self) (hdirty : r.dirty = true) :
    r.run now connected =
      ((forEach (refreshOne (r.forcedChange || r.last ≠ some (build self r.peers connected)) now)
          (r.reviewed self connected) connected).1 ++
        (forEach (runOne now)
          (forEach (refreshOne (r.forcedChange || r.last ≠ some (build self r.peers connected)) now)
          (r.reviewed self connected) connected).2 connected).1,
       (forEach (runOne now)
         (forEach (refreshOne (r.forcedChange || r.last ≠ some (build self r.peers connected)) now)
          (r.reviewed self connected) connected).2 connected).2) := by
  obtain ⟨active, peers, generation, last, forced, schedules, dirty⟩ := r
  obtain rfl : active = some self := h
  obtain rfl : dirty = true := hdirty
  rfl

/-- What a run leaves of an active publisher. All its payloads are those of the roster it leaves,
and the timers of the connected sessions lie in the future where these times fit the clock. -/
structure Ran (r : RosterPublisher) (now : Millis) (connected : List U32)
    (result : List RosterSend × RosterPublisher) :
    Prop where
  self : result.2.self = r.self
  peers : result.2.peers = r.peers
  clean : result.2.dirty = false
  sends : ∀ x ∈ result.1, x.1 ∈ connected ∧ result.2.payload = some x.2
  kept : ∀ x ∈ result.2.schedules, x.peerId ∈ connected ∨ x ∈ r.schedules
  later : now + rosterIntervalMs < 2 ^ 64 →
    ∀ x ∈ result.2.schedules, x.peerId ∈ connected → Later now x
  last : result.2.last = r.last ∨ ∃ self, r.self = some self ∧
    result.2.last = some (build self r.peers connected)

theorem run_ran {self : RosterPeer} (h : r.self = some self) (now : Millis) (connected : List U32) :
    Ran r now connected (r.run now connected) := by
  have hone : ∀ r, HandledAll r connected (forEach (runOne now) r connected) :=
    fun r => forEach_handled (fun _ _ => runOne_handled) connected
  cases hdirty : r.dirty with
  | false =>
    rw [run_clean h hdirty]
    have hran := hone r
    constructor
    · rw [hran.rest]
    · rw [hran.rest]
    · rw [hran.rest, hdirty]
    · intro x hx
      obtain ⟨hto, hpayload⟩ := hran.sends x hx
      exact ⟨hto, (payload_congr hran.rest).trans hpayload⟩
    · intro x hx
      by_cases hpeer : x.peerId ∈ connected
      · exact .inl hpeer
      · exact .inr ((hran.others x hpeer).mp hx)
    · intro hfits x hx
      exact forEach_later hfits hx
    · rw [hran.rest]
      exact .inl rfl
  | true =>
    rw [run_dirty h hdirty]
    generalize (r.forcedChange || decide (r.last ≠ some (build self r.peers connected))) = changed
    have hrefresh : HandledAll (r.reviewed self connected) connected
        (forEach (refreshOne changed now) (r.reviewed self connected) connected) :=
      forEach_handled (fun _ _ => refreshOne_handled) connected
    generalize forEach (refreshOne changed now) (r.reviewed self connected) connected =
      first at hrefresh
    have hran := hone first.2
    have hlater : now + rosterIntervalMs < 2 ^ 64 →
        ∀ x ∈ (forEach (runOne now) first.2 connected).2.schedules, x.peerId ∈ connected →
          Later now x :=
      fun hfits x hx => forEach_later hfits hx
    generalize forEach (runOne now) first.2 connected = second at hran hlater
    constructor
    · rw [hran.rest, hrefresh.rest]
      rfl
    · rw [hran.rest, hrefresh.rest]
      rfl
    · rw [hran.rest, hrefresh.rest]
      rfl
    · intro x hx
      rcases List.mem_append.mp hx with hx | hx
      · obtain ⟨hto, hpayload⟩ := hrefresh.sends x hx
        exact ⟨hto, ((payload_congr hran.rest).trans (payload_congr hrefresh.rest)).trans hpayload⟩
      · obtain ⟨hto, hpayload⟩ := hran.sends x hx
        exact ⟨hto, (payload_congr hran.rest).trans hpayload⟩
    · intro x hx
      by_cases hpeer : x.peerId ∈ connected
      · exact .inl hpeer
      · have hreviewed := (hrefresh.others x hpeer).mp ((hran.others x hpeer).mp hx)
        exact .inr (List.mem_filter.mp hreviewed).1
    · exact hlater
    · rw [hran.rest, hrefresh.rest]
      exact .inr ⟨self, h, rfl⟩

/-! ## Each session in a run -/

/-- The present roster, sent once to a peer. -/
def sending (r : RosterPublisher) (k : U32) : List RosterSend :=
  r.payload.toList.map fun bytes => (k, bytes)

theorem refreshOne_other {j : U32} (hj : j ≠ k) :
    (refreshOne changed now r j).2.schedule k = r.schedule k := by
  have hset : ∀ sch : Schedule, sch.peerId = j → (r.setSchedule sch).schedule k = r.schedule k := by
    intro sch hsch
    rw [setSchedule_schedule, if_neg (hsch ▸ hj)]
  have hpeer : ((r.schedule j).getD { peerId := j }).peerId = j := by
    cases hsch : r.schedule j with
    | none => rfl
    | some x => exact (schedule_some hsch).2
  unfold refreshOne
  dsimp only
  by_cases hchanged : changed = true
  · rw [if_pos hchanged]
    exact hset _ hpeer
  · rw [if_neg hchanged]
    by_cases hnone : (r.schedule j).isNone = true
    · rw [if_pos hnone]
      exact hset _ hpeer
    · rw [if_neg hnone]

theorem runOne_other {j : U32} (hj : j ≠ k) : (runOne now r j).2.schedule k = r.schedule k := by
  cases hsch : r.schedule j with
  | none =>
    unfold runOne
    rw [hsch]
  | some sch =>
    rw [runOne_some hsch, setSchedule_schedule, renewed_peer, resent_peer,
      (schedule_some hsch).2, if_neg hj]

theorem forEach_other (hf : ∀ r j, j ≠ k → (f r j).2.schedule k = r.schedule k)
    (hk : k ∉ connected) :
    (forEach f r connected).2.schedule k = r.schedule k := by
  induction connected generalizing r with
  | nil => rfl
  | cons j rest ih =>
    rw [List.mem_cons, not_or] at hk
    rw [forEach_cons]
    exact (ih hk.2).trans (hf r j (Ne.symm hk.1))

theorem filter_sends {sends : List RosterSend} {j : U32} (h : ∀ x ∈ sends, x.1 = j) :
    sends.filter (·.1 = k) = if j = k then sends else [] := by
  by_cases hj : j = k
  · rw [if_pos hj, List.filter_eq_self]
    intro x hx
    simp [h x hx, hj]
  · rw [if_neg hj, List.filter_eq_nil_iff]
    intro x hx
    simp [h x hx, hj]

theorem forEach_at (hf : ∀ r j, Handled r j (f r j))
    (hother : ∀ r j, j ≠ k → (f r j).2.schedule k = r.schedule k) (hnodup : connected.Nodup)
    (hk : k ∈ connected) :
    ∃ r', r' = { r with schedules := r'.schedules } ∧ r'.schedule k = r.schedule k ∧
      (forEach f r connected).1.filter (·.1 = k) = (f r' k).1 ∧
      (forEach f r connected).2.schedule k = (f r' k).2.schedule k := by
  induction connected generalizing r with
  | nil => cases hk
  | cons j rest ih =>
    obtain ⟨hj, hrest⟩ := List.nodup_cons.mp hnodup
    have hsends : (f r j).1.filter (·.1 = k) = if j = k then (f r j).1 else [] :=
      filter_sends fun x hx => ((hf r j).sends x hx).1
    rw [forEach_cons, List.filter_append, hsends]
    by_cases hjk : j = k
    · subst hjk
      have hothers : HandledAll (f r j).2 rest (forEach f (f r j).2 rest) := forEach_handled hf rest
      have hnone : (forEach f (f r j).2 rest).1.filter (·.1 = j) = [] := by
        rw [List.filter_eq_nil_iff]
        intro x hx hxj
        rw [decide_eq_true_eq] at hxj
        exact hj (hxj ▸ (hothers.sends x hx).1)
      refine ⟨r, rfl, rfl, ?_, forEach_other hother hj⟩
      rw [hnone, if_pos rfl, List.append_nil]
    · have hk' : k ∈ rest := (List.mem_cons.mp hk).resolve_left (Ne.symm hjk)
      obtain ⟨r', hr', hschedule, hfilter, hafter⟩ := ih (r := (f r j).2) hrest hk'
      refine ⟨r', ?_, hschedule.trans (hother r j hjk), ?_, hafter⟩
      · rw [hr', (hf r j).rest]
      · rw [if_neg hjk, List.nil_append, hfilter]

theorem send_sends (now : Millis) : (r.send sch now).1 = r.sending sch.peerId := rfl

theorem refreshOne_serves (changed : Bool) (now : Millis) (r : RosterPublisher) (k : U32) :
    ((refreshOne changed now r k).1 = r.sending k ∧
      ∃ sch, (refreshOne changed now r k).2.schedule k = some sch ∧
        (now + rosterIntervalMs < 2 ^ 64 → Later now sch)) ∨
    changed = false ∧ (r.schedule k).isSome = true ∧ refreshOne changed now r k = ([], r) := by
  have hpeer : ((r.schedule k).getD { peerId := k }).peerId = k := by
    cases hsch : r.schedule k with
    | none => rfl
    | some x => exact (schedule_some hsch).2
  have hset : ∀ sch : Schedule, sch.peerId = k → (r.setSchedule sch).schedule k = some sch := by
    intro sch hsch
    rw [setSchedule_schedule, if_pos hsch]
  unfold refreshOne
  dsimp only
  by_cases hchanged : changed = true
  · rw [if_pos hchanged]
    refine .inl ⟨?_, _, hset _ hpeer, fun hfits => ⟨?_, ?_⟩⟩
    · rw [send_sends, hpeer]
    · intro d hd
      rw [← Option.some.inj hd]
      exact lt_period hfits
    · intro d hd
      rw [← Option.some.inj hd]
      exact lt_resend hfits
  · rw [if_neg hchanged]
    cases hsch : r.schedule k with
    | none =>
      refine .inl ⟨rfl, _, hset _ rfl, fun hfits => ⟨?_, ?_⟩⟩
      · intro d hd
        rw [← Option.some.inj hd]
        exact lt_period hfits
      · intro d hd
        cases hd
    | some sch => exact .inr ⟨by simpa using hchanged, rfl, rfl⟩

/-- The session is not served, or it is sent the roster; once, where the times fit the clock. -/
def Served (now : Millis) (roster sends : List RosterSend) : Prop :=
  ∃ more, sends = roster ++ more ∧ (now + rosterIntervalMs < 2 ^ 64 → more = [])

theorem Served.once {now : Millis} (roster : List RosterSend) : Served now roster roster :=
  ⟨[], (List.append_nil roster).symm, fun _ => rfl⟩

/-- Resend and period are never both due once the resend has been sent. -/
theorem runOne_serves (now : Millis) (h : r.schedule k = some sch) :
    ((runOne now r k).2.schedule k).isSome = true ∧
      ((runOne now r k).1 = [] ∨ Served now (r.sending k) (runOne now r k).1) := by
  obtain ⟨-, hpeer⟩ := schedule_some h
  rw [runOne_some h]
  constructor
  · rw [setSchedule_schedule, renewed_peer, resent_peer, if_pos hpeer]
    rfl
  · by_cases hdue : sch.resendDue.any (· ≤ now) = true
    · have hresent : (r.resent now sch).1 = r.sending k ∧
          (r.resent now sch).2.periodDue = some (timeAfter now rosterIntervalMs) := by
        unfold resent
        rw [if_pos hdue]
        exact ⟨by rw [send_sends, hpeer], rfl⟩
      rw [hresent.1]
      refine .inr ⟨_, rfl, fun hfits => ?_⟩
      unfold renewed
      rw [if_neg]
      rw [hresent.2]
      simpa using lt_period hfits
    · have hresent : r.resent now sch = ([], sch) := if_neg hdue
      rw [hresent]
      unfold renewed
      dsimp only
      by_cases hperiod : sch.periodDue.any (· ≤ now) = true
      · rw [if_pos hperiod, send_sends, hpeer]
        exact .inr (.once _)
      · rw [if_neg hperiod]
        exact .inl rfl

theorem reviewed_schedule {self : RosterPeer} (hk : k ∈ connected) :
    (r.reviewed self connected).schedule k = r.schedule k := by
  unfold schedule reviewed
  dsimp only
  rw [List.find?_filter]
  congr 1
  funext x
  by_cases hx : x.peerId = k
  · simp [hx, hk]
  · simp [hx]

theorem run_edition {self : RosterPeer} (h : r.self = some self) (now : Millis)
    (connected : List U32) :
    (r.run now connected).2.generation = r.generation ∧ (r.run now connected).2.last = r.last ∨
      (r.run now connected).2.generation = r.generation + 1 := by
  have hone : ∀ r, HandledAll r connected (forEach (runOne now) r connected) :=
    fun r => forEach_handled (fun _ _ => runOne_handled) connected
  cases hdirty : r.dirty with
  | false =>
    rw [run_clean h hdirty, (hone r).rest]
    exact .inl ⟨rfl, rfl⟩
  | true =>
    rw [run_dirty h hdirty]
    generalize hchanged :
      (r.forcedChange || decide (r.last ≠ some (build self r.peers connected))) = changed
    have hrefresh : HandledAll (r.reviewed self connected) connected
        (forEach (refreshOne changed now) (r.reviewed self connected) connected) :=
      forEach_handled (fun _ _ => refreshOne_handled) connected
    dsimp only
    rw [(hone _).rest, hrefresh.rest]
    change (if (r.forcedChange || decide (r.last ≠ some (build self r.peers connected))) then
      r.generation + 1
      else r.generation) = r.generation ∧ some (build self r.peers connected) = r.last ∨
      (if (r.forcedChange || decide (r.last ≠ some (build self r.peers connected))) then
        r.generation + 1
        else r.generation) = r.generation + 1
    rw [hchanged]
    cases changed with
    | true => exact .inr rfl
    | false =>
      rw [Bool.or_eq_false_iff, decide_eq_false_iff_not, not_not] at hchanged
      exact .inl ⟨rfl, hchanged.2.symm⟩

theorem run_content {self : RosterPeer} (h : r.self = some self) (now : Millis)
    (connected : List U32) :
    (r.run now connected).2.last = if r.dirty then
    some (build self r.peers connected) else r.last := by
  have hone : ∀ r, HandledAll r connected (forEach (runOne now) r connected) :=
    fun r => forEach_handled (fun _ _ => runOne_handled) connected
  cases hdirty : r.dirty with
  | false =>
    rw [run_clean h hdirty, (hone r).rest]
    rfl
  | true =>
    have hrefresh : ∀ changed, HandledAll (r.reviewed self connected) connected
        (forEach (refreshOne changed now) (r.reviewed self connected) connected) :=
      fun changed => forEach_handled (fun _ _ => refreshOne_handled) connected
    rw [run_dirty h hdirty]
    dsimp only
    rw [(hone _).rest, (hrefresh _).rest]
    rfl

theorem run_serves {self : RosterPeer} (h : r.self = some self) (now : Millis)
    (hnodup : connected.Nodup) (hk : k ∈ connected)
    (hserved : r.dirty = false → (r.schedule k).isSome = true) :
    ((r.run now connected).2.schedule k).isSome = true ∧
      (Served now ((r.run now connected).2.sending k) ((r.run now connected).1.filter (·.1 = k)) ∨
        (r.run now connected).1.filter (·.1 = k) = [] ∧ (r.schedule k).isSome = true ∧
          (r.run now connected).2.generation = r.generation ∧
          (r.run now connected).2.last = r.last) := by
  have hone : ∀ r, HandledAll r connected (forEach (runOne now) r connected) :=
    fun r => forEach_handled (fun _ _ => runOne_handled) connected
  have hat : ∀ r : RosterPublisher, ∃ r', r' = { r with schedules := r'.schedules } ∧
      r'.schedule k = r.schedule k ∧
      (forEach (runOne now) r connected).1.filter (·.1 = k) = (runOne now r' k).1 ∧
      (forEach (runOne now) r connected).2.schedule k = (runOne now r' k).2.schedule k :=
    fun r => forEach_at (fun _ _ => runOne_handled) (fun _ _ => runOne_other) hnodup hk
  cases hdirty : r.dirty with
  | false =>
    obtain ⟨sch, hsch⟩ := Option.isSome_iff_exists.mp (hserved hdirty)
    obtain ⟨r', hr', hschedule, hsends, hafter⟩ := hat r
    obtain ⟨hkept, hserves⟩ := runOne_serves now (hschedule.trans hsch)
    rw [run_clean h hdirty, hsends, hafter]
    have hrest := (hone r).rest
    generalize (forEach (runOne now) r connected).2 = v at hrest
    have hsame : v.sending k = r'.sending k := by
      rw [hrest, hr']
      rfl
    refine ⟨hkept, ?_⟩
    rcases hserves with hnone | hsent
    · rw [hnone, hrest, hsch]
      exact .inr ⟨rfl, rfl, rfl, rfl⟩
    · rw [hsame]
      exact .inl hsent
  | true =>
    have hedition := run_edition h now connected
    rw [run_dirty h hdirty] at hedition ⊢
    generalize hchanged :
      (r.forcedChange || decide (r.last ≠ some (build self r.peers connected))) = changed
      at hedition ⊢
    have hrefresh : HandledAll (r.reviewed self connected) connected
        (forEach (refreshOne changed now) (r.reviewed self connected) connected) :=
      forEach_handled (fun _ _ => refreshOne_handled) connected
    obtain ⟨u, hu, huschedule, hfirst, hmiddle⟩ := forEach_at (r := r.reviewed self connected)
      (f := refreshOne changed now) (fun _ _ => refreshOne_handled)
        (fun _ _ => refreshOne_other) hnodup hk
    rw [reviewed_schedule hk] at huschedule
    generalize forEach (refreshOne changed now) (r.reviewed self connected) connected = first
      at hrefresh hfirst hmiddle hedition ⊢
    obtain ⟨w, hw, hwschedule, hsecond, hafter⟩ := hat first.2
    have hrest := (hone first.2).rest
    generalize forEach (runOne now) first.2 connected = second at hrest hsecond hafter hedition ⊢
    have hpayload : second.2.sending k = u.sending k ∧ second.2.sending k = w.sending k := by
      constructor
      · rw [hrest, hrefresh.rest, hu]
        rfl
      · rw [hrest, hw]
        rfl
    rw [List.filter_append, hfirst, hsecond, hafter]
    rcases refreshOne_serves changed now u k with
      ⟨hsent, sch, hsch, hlater⟩ | ⟨hunchanged, hsome, hleft⟩
    · have hw' : w.schedule k = some sch := (hwschedule.trans hmiddle).trans hsch
      refine ⟨(runOne_serves now hw').1, .inl ⟨_, by rw [hsent, hpayload.1], fun hfits => ?_⟩⟩
      exact (runOne_idle fun x hx => by
        rw [hw'] at hx
        exact Option.some.inj hx ▸ hlater hfits).1
    · rw [hleft] at hmiddle
      have hsome' := hsome
      rw [huschedule] at hsome'
      obtain ⟨sch, hsch⟩ := Option.isSome_iff_exists.mp hsome
      have hw' : w.schedule k = some sch := (hwschedule.trans hmiddle).trans hsch
      obtain ⟨hkept, hserves⟩ := runOne_serves now hw'
      refine ⟨hkept, ?_⟩
      rw [hleft, List.nil_append]
      rcases hserves with hnone | hsent
      · rw [hnone]
        refine .inr ⟨rfl, hsome', ?_⟩
        rw [hrest, hrefresh.rest]
        change (if (r.forcedChange || decide (r.last ≠ some (build self r.peers connected))) then
          r.generation + 1
          else r.generation) = r.generation ∧ some (build self r.peers connected) = r.last
        rw [hchanged, hunchanged]
        rw [hunchanged, Bool.or_eq_false_iff, decide_eq_false_iff_not, not_not] at hchanged
        exact ⟨rfl, hchanged.2.symm⟩
      · rw [hpayload.2]
        exact .inl hsent

end Sangtachi.Tunnel.RosterPublisher
