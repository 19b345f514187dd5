import Sangtachi.Network.StunRuns

/-! # How long a STUN stage takes

When timers fire at their deadlines, a server is asked once the one two places before it is over, so
that every two servers take one deadline more. -/
namespace Sangtachi.StunClient

open Sangtachi.Stun Sangtachi.Timers
open Sangtachi.Peer (Endpoint)
open Sangtachi.Lobby (Bytes ascii decimal)

variable {random : ℕ → Option TransactionId} {servers : List StunServer} {now : Millis}
  {c c' : Client}

/-! ## Deadlines of open transactions -/

/-- When the server at `i` is given up at the latest. -/
def lastMs (start : Millis) (i : ℕ) : ℕ :=
  start.toNat + stunDeadlineMs.toNat * (i / stunConcurrency + 1)

theorem lastMs_eq (start : Millis) (i : ℕ) :
    lastMs start i = start.toNat + 5000 * (i / 2 + 1) := rfl

theorem stunStageCapMs_eq (count : ℕ) : stunStageCapMs count = 5000 * ((count + 1) / 2) := rfl

theorem lastMs_le_cap (start : Millis) {i count : ℕ} (h : i < count) :
    lastMs start i ≤ start.toNat + stunStageCapMs count := by
  rw [lastMs_eq, stunStageCapMs_eq]
  omega

/-- Every open transaction has its deadline in the set of timers. -/
def Client.Dated (start : Millis) (c : Client) : Prop :=
  ∀ k, (c.slots k).active = true → ∃ t ∈ c.timers.timers,
    t.name = deadlineTimer (c.slots k).serverIndex ∧
    t.deadline.toNat ≤ lastMs start (c.slots k).serverIndex

theorem Move.next_le (hmove : Move random now c c') : c.nextServer ≤ c'.nextServer := by
  cases hmove with
  | count | release | mapped | phase => exact le_refl _
  | drawFailed => exact Nat.le_succ _
  | launch k T =>
    obtain ⟨_, _, _, hsame⟩ := launched_same
      ({ c with nextServer := c.nextServer + 1, draws := c.draws + 1 } : Client) k
        c.nextServer T now
    rw [hsame]
    exact Nat.le_succ _
  | resend k =>
    obtain ⟨_, _, _, hsame⟩ := resend_same c k now
    rw [hsame]

theorem Move.started (hmove : Move random now c c') (h : c.phase ≠ .idle) : c'.phase ≠ .idle := by
  cases hmove with
  | count | release | mapped => exact h
  | drawFailed => exact nofun
  | launch k T =>
    obtain ⟨_, _, _, hsame⟩ := launched_same
      ({ c with nextServer := c.nextServer + 1, draws := c.draws + 1 } : Client) k
        c.nextServer T now
    rw [hsame]
    exact h
  | resend k =>
    obtain ⟨_, _, _, hsame⟩ := resend_same c k now
    rw [hsame]
    exact h
  | phase p _ hp => exact hp

/-- The time of a move leaves room for the deadline of every server it asks. -/
def Room (start now : Millis) (c c' : Client) : Prop :=
  ∀ i, c.nextServer ≤ i → i < c'.nextServer → now.toNat + 5000 ≤ lastMs start i ∧
    now.toNat + 5000 < 2 ^ 64

theorem release_dated {start : Millis} (hidle : Idle c.timers) {k : Fin stunConcurrency}
    (hdistinct : ∀ k', (c.slots k').active = true → k' ≠ k →
      (c.slots k').serverIndex ≠ (c.slots k).serverIndex)
    (hdated : ∀ k', (c.slots k').active = true → k' ≠ k → ∃ t ∈ c.timers.timers,
      t.name = deadlineTimer (c.slots k').serverIndex ∧
      t.deadline.toNat ≤ lastMs start (c.slots k').serverIndex) :
    (c.release k).Dated start := by
  intro k' hk'
  obtain ⟨hne, hold⟩ := release_active.mp hk'
  rw [release_other hne]
  obtain ⟨t, ht, hname, hlast⟩ := hdated k' hold hne
  refine ⟨t, (mem_release hidle).mpr ⟨ht, fun howned => ?_⟩, hname, hlast⟩
  exact hdistinct k' hold hne (OwnedAt.unique (.inr hname) howned)

theorem Move.dated {start : Millis} (hmove : Move random now c c') (h : Safe random c)
    (hdated : c.Dated start) (hroom : Room start now c c') :
    c'.Dated start := by
  cases hmove with
  | count | drawFailed | mapped | phase => exact hdated
  | launch k T hphase hk hnext hdraw =>
    have hserver :
      ({ c with nextServer := c.nextServer + 1, draws := c.draws + 1 }
        : Client).servers[c.nextServer]? =
        some c.servers[c.nextServer] := List.getElem?_eq_getElem hnext
    rw [launched_eq hserver] at hroom ⊢
    obtain ⟨hlast, hwrap⟩ := hroom c.nextServer (le_refl _) (Nat.lt_succ_self _)
    intro k' hk'
    by_cases hne : k' = k
    · subst hne
      have hfree : (c.timers.addOnce (retryTimer c.nextServer) 500 now).1.contains
        (deadlineTimer c.nextServer) =
          false := by
        rw [Bool.eq_false_iff]
        intro hcontains
        obtain ⟨t, ht, hname⟩ := (contains_idle (idle_addOnce h.idle _ _ _)).mp hcontains
        rcases mem_addOnce.mp ht with ht | ⟨-, rfl⟩
        · obtain ⟨k'', hk'', hindex⟩ := h.owned t ht c.nextServer (.inr hname)
          exact absurd hindex (h.below k'' hk'').ne
        · exact retryTimer_ne_deadlineTimer _ _ hname
      have hself : Function.update c.slots k' (⟨true, c.nextServer, T, 1⟩ : Slot) k' =
        ⟨true, c.nextServer, T, 1⟩ :=
        Function.update_self ..
      dsimp only
      rw [hself]
      refine ⟨_, mem_addOnce.mpr (.inr ⟨hfree, rfl⟩), rfl, ?_⟩
      have hsum : (now + stunDeadlineMs).toNat = now.toNat + 5000 := by
        rw [BitVec.toNat_add]
        exact Nat.mod_eq_of_lt hwrap
      rw [hsum]
      exact hlast
    · have hother : Function.update c.slots k (⟨true, c.nextServer, T, 1⟩ : Slot) k' = c.slots k' :=
        Function.update_of_ne hne _ _
      dsimp only at hk' ⊢
      rw [hother] at hk' ⊢
      obtain ⟨t, ht, hname, hlast⟩ := hdated k' hk'
      exact ⟨t, mem_addOnce.mpr (.inl (mem_addOnce.mpr (.inl ht))), hname, hlast⟩
  | release k hk =>
    exact release_dated h.idle (fun k' hk' hne heq => hne (h.distinct k' k hk' hk heq)) fun k' hk'
      _ => hdated k' hk'
  | resend k hphase hk hsent =>
    obtain ⟨server, hserver⟩ := h.server hk
    rw [resend_eq hserver]
    intro k' hk'
    have hold : (c.slots k').active = true ∧
        (Function.update c.slots k { c.slots k with sent := (c.slots k).sent + 1 } k').serverIndex =
          (c.slots k').serverIndex := by
      by_cases hne : k' = k
      · subst hne
        rw [Function.update_self]
        exact ⟨hk, rfl⟩
      · dsimp only at hk'
        rw [Function.update_of_ne hne] at hk' ⊢
        exact ⟨hk', rfl⟩
    dsimp only
    rw [hold.2]
    obtain ⟨t, ht, hname, hlast⟩ := hdated k' hold.1
    refine ⟨t, ?_, hname, hlast⟩
    split_ifs
    · exact mem_addOnce.mpr (.inl ht)
    · exact ht

theorem Moves.next_le (hmoves : Moves random now c c') : c.nextServer ≤ c'.nextServer := by
  induction hmoves with
  | refl => exact le_refl _
  | tail _ hmove ih => exact ih.trans hmove.next_le

theorem Moves.started (hmoves : Moves random now c c') (h : c.phase ≠ .idle) :
    c'.phase ≠ .idle := by
  induction hmoves with
  | refl => exact h
  | tail _ hmove ih => exact hmove.started ih

theorem Moves.dated {start : Millis} (hmoves : Moves random now c c') (h : Safe random c)
    (hdated : c.Dated start) (hroom : Room start now c c') :
    c'.Dated start := by
  induction hmoves with
  | refl => exact hdated
  | tail hmoves hmove ih =>
    refine hmove.dated (Moves.safe hmoves h) (ih fun i hi hlt => ?_) fun i hi hlt => ?_
    · exact hroom i hi (hlt.trans_le hmove.next_le)
    · exact hroom i ((Moves.next_le hmoves).trans hi) hlt

/-! ## Runs in which timers fire at their deadlines -/

/-- No timer of the client is late at the event, and one that fires is due. -/
structure Client.OnTime (c : Client) (e : Event) : Prop where
  waits : ∀ t ∈ c.timers.timers, Owned t.name → e.now ≤ t.deadline
  due : ∀ t now, e = .expired t now → t.deadline ≤ now

inductive Punctual (random : ℕ → Option TransactionId) (c₀ : Client) (start : Millis) :
    Client → Prop where
  | started : Punctual random c₀ start (c₀.handle random (.start start))
  | tail (c e) : Punctual random c₀ start c → c.Possible e → c.OnTime e →
    Punctual random c₀ start (c.handle random e)

/-- A server that is still to be asked is asked in time: both slots are in use until one of them,
and the older of the two is over by then. -/
theorem running_room {start : Millis} {answers : Set (ℕ × Endpoint)}
    (h : Sound random servers answers c) (hstarted : c.phase ≠ .idle) (hdone : c.done = false)
    (hdated : c.Dated start) {now : Millis}
    (hwaits : ∀ t ∈ c.timers.timers, Owned t.name → now ≤ t.deadline)
    (hcap : start.toNat + stunStageCapMs servers.length < 2 ^ 64)
    (hbound : c'.nextServer ≤ servers.length) :
    Room start now c c' := by
  intro i hi hlt
  have hbusy : ∀ k, (c.slots k).active = true := by
    cases h.stage with
    | idle hphase => exact absurd hphase hstarted
    | running _ _ _ _ hbusy =>
      rw [h.servers] at hbusy
      exact hbusy (by omega)
    | succeeded hphase | failed hphase =>
      unfold Client.done at hdone
      rw [hphase] at hdone
      cases hdone
  have hdue : ∀ k, now.toNat ≤ lastMs start (c.slots k).serverIndex := by
    intro k
    obtain ⟨t, ht, hname, hlast⟩ := hdated k (hbusy k)
    exact (BitVec.le_def.mp (hwaits t ht ⟨_, .inr hname⟩)).trans hlast
  have hbelow : ∀ k, (c.slots k).serverIndex < c.nextServer := fun k => h.safe.below k (hbusy k)
  have hdiffer : (c.slots ⟨0, by decide⟩).serverIndex ≠ (c.slots ⟨1, by decide⟩).serverIndex := by
    intro heq
    exact absurd (h.safe.distinct _ _ (hbusy _) (hbusy _) heq) (by decide)
  have hfirst := hdue ⟨0, by decide⟩
  have hsecond := hdue ⟨1, by decide⟩
  have hbelow₀ := hbelow ⟨0, by decide⟩
  have hbelow₁ := hbelow ⟨1, by decide⟩
  have hlast := lastMs_le_cap start (hlt.trans_le hbound)
  have hnow : now.toNat + 5000 ≤ lastMs start i := by
    rw [lastMs_eq] at hfirst hsecond ⊢
    omega
  exact ⟨hnow, (hnow.trans hlast).trans_lt hcap⟩

/-- What holds after every event of such a run. -/
structure InTime (random : ℕ → Option TransactionId) (servers : List StunServer) (start : Millis)
    (c : Client) :
    Prop where
  sound : ∃ answers, Sound random servers answers c
  started : c.phase ≠ .idle
  dated : c.Dated start

theorem tailIndex_deadline {i : ℕ} (h : i ≤ 9999999999) :
    tailIndex (deadlineTimer i) retryName = none ∧
    tailIndex (deadlineTimer i) deadlineName = some i := by
  refine ⟨?_, tailIndex_iff.mpr ⟨h, rfl⟩⟩
  cases htail : tailIndex (deadlineTimer i) retryName with
  | none => rfl
  | some j => exact absurd (tailIndex_iff.mp htail).2.symm (retryTimer_ne_deadlineTimer j i)

theorem findSlot_active {k : Fin stunConcurrency} (h : Safe random c)
    (hk : (c.slots k).active = true) :
    c.findSlot (c.slots k).serverIndex = some k := by
  cases hfind : c.findSlot (c.slots k).serverIndex with
  | none =>
    have hnone := List.find?_eq_none.mp hfind k (List.mem_finRange k)
    rw [hk, decide_eq_true rfl] at hnone
    exact absurd rfl hnone
  | some k' =>
    obtain ⟨hk', hindex⟩ := findSlot_some hfind
    rw [h.distinct k' k hk' hk hindex]

theorem onTimer_deadline (h : Safe random c) (hdone : c.done = false) {k : Fin stunConcurrency}
    (hk : (c.slots k).active = true) (hi : (c.slots k).serverIndex ≤ 9999999999) (now : Millis) :
    c.onTimer random (deadlineTimer (c.slots k).serverIndex) now =
      (c.release k).refill random now := by
  obtain ⟨hretry, hdeadline⟩ := tailIndex_deadline hi
  unfold Client.onTimer
  rw [hdone, hretry, hdeadline]
  dsimp only
  rw [findSlot_active h hk]
  rfl

theorem start_inTime (random : ℕ → Option TransactionId) (servers : List StunServer)
    {timers : TimerSet Bytes} (hidle : Idle timers) (hfree : ∀ t ∈ timers.timers, ¬Owned t.name)
    {start : Millis}
    (hcap : start.toNat + stunStageCapMs servers.length < 2 ^ 64) :
    InTime random servers start ((Client.made servers timers).handle random (.start start)) := by
  have hmade := made_sound random servers hidle hfree
  have hstart := start_handled hmade start
  have hbound := hstart.sound.safe.bound
  rw [hstart.sound.servers] at hbound
  refine ⟨⟨∅, hstart.sound⟩, ?_, ?_⟩
  · change ((Client.made servers timers).start random start).1.phase ≠ .idle
    have hphase : (Client.made servers timers).phase = .idle := rfl
    unfold Client.start
    rw [if_neg (not_not.mpr hphase)]
    split_ifs with hfew
    · exact nofun
    · exact (refill_refilled start hmade.safe rfl (Nat.not_lt.mp hfew)).started
  · refine hstart.moves.dated hmade.safe nofun fun i _ hlt => ?_
    have hlast := lastMs_le_cap start (hlt.trans_le hbound)
    have hnow : start.toNat + 5000 ≤ lastMs start i := by
      rw [lastMs_eq]
      omega
    exact ⟨hnow, (hnow.trans hlast).trans_lt hcap⟩

theorem expired_inTime {start : Millis} (h : InTime random servers start c) {t : Timer Bytes}
    {now : Millis} (he : c.Possible (.expired t now)) (htime : c.OnTime (.expired t now))
    (hmany : servers.length ≤ 10000000000)
    (hcap : start.toNat + stunStageCapMs servers.length < 2 ^ 64) :
    (c.handle random (.expired t now)).Dated start := by
  obtain ⟨answers, hsound⟩ := h.sound
  obtain ⟨hentered, hhandled⟩ := event_handled hsound he
  obtain ⟨i, howned⟩ := he.2
  obtain ⟨k, hk, hindex⟩ := hsound.safe.owned t he.1 i howned
  have hdone : c.done = false :=
    hsound.stage.done_iff.mpr (.inr (hsound.stage.running_of_active hk).1)
  have hone : c.timers.enter now t = c.timers.erase t.id :=
    enter_once now (hsound.safe.once t he.1 he.2)
  have hkept : ∀ u ∈ c.timers.timers, u.name ≠ t.name → u ∈ (c.timers.enter now t).timers := by
    intro u hu hname
    rw [hone]
    exact mem_erase.mpr ⟨hu,
      fun hid => hname (congrArg Timer.name (id_unique hsound.safe.idle.wellFormed hu he.1 hid))⟩
  have hbound := hhandled.sound.safe.bound
  rw [hhandled.sound.servers] at hbound
  have hroom : Room start now c (c.handle random (.expired t now)) :=
    running_room hsound h.started hdone h.dated htime.waits hcap hbound
  rcases howned with hretry | hdeadline
  · refine hhandled.moves.dated hentered.safe (fun k' hk' => ?_) hroom
    obtain ⟨u, hu, hname, hlast⟩ := h.dated k' hk'
    refine ⟨u, hkept u hu ?_, hname, hlast⟩
    rw [hname, hretry]
    exact (retryTimer_ne_deadlineTimer _ _).symm
  · have hi : (c.slots k).serverIndex ≤ 9999999999 := by
      have hlt := (hsound.safe.below k hk).trans_le hsound.safe.bound
      rw [hsound.servers] at hlt
      omega
    have hentry : c.handle random (.expired t now) =
        ((c.entered (.expired t now)).release k).refill random now := by
      change (c.entered (.expired t now)).onTimer random t.name now = _
      rw [hdeadline, ← hindex]
      exact onTimer_deadline hentered.safe hdone hk hi now
    have hdated : ((c.entered (.expired t now)).release k).Dated start := by
      refine release_dated hentered.safe.idle
        (fun k' hk' hne heq => hne (hsound.safe.distinct k' k hk' hk heq))
        fun k' hk' hne => ?_
      obtain ⟨u, hu, hname, hlast⟩ := h.dated k' hk'
      refine ⟨u, hkept u hu ?_, hname, hlast⟩
      rw [hname, hdeadline]
      intro heq
      exact hne (hsound.safe.distinct k' k hk' hk ((deadlineTimer_injective heq).trans hindex.symm))
    have hservers : 2 ≤ c.servers.length := (hsound.stage.running_of_active hk).2.1
    have hrefilled := refill_refilled now (hentered.safe.release k) hdone hservers
    rw [hentry] at hroom ⊢
    exact hrefilled.moves.dated (hentered.safe.release k) hdated hroom

theorem event_inTime {start : Millis} (h : InTime random servers start c) {e : Event}
    (he : c.Possible e) (htime : c.OnTime e) (hmany : servers.length ≤ 10000000000)
    (hcap : start.toNat + stunStageCapMs servers.length < 2 ^ 64) :
    InTime random servers start (c.handle random e) := by
  obtain ⟨answers, hsound⟩ := h.sound
  obtain ⟨hentered, hhandled⟩ := event_handled hsound he
  have hstarted : (c.entered e).phase ≠ .idle := by
    cases e <;> exact h.started
  refine ⟨⟨_, hhandled.sound⟩, hhandled.moves.started hstarted, ?_⟩
  cases hdone : c.done with
  | true =>
    obtain ⟨-, timers, drops, hsame⟩ := event_done hsound hdone he
    intro k hk
    rw [hsame] at hk
    rw [hsound.stage.quiet hdone k] at hk
    cases hk
  | false =>
    have hbound := hhandled.sound.safe.bound
    rw [hhandled.sound.servers] at hbound
    have hroom : Room start e.now c (c.handle random e) :=
      running_room hsound h.started hdone h.dated htime.waits hcap hbound
    cases e with
    | start now => exact hhandled.moves.dated hentered.safe h.dated hroom
    | datagram payload now => exact hhandled.moves.dated hentered.safe h.dated hroom
    | expired t now => exact expired_inTime h he htime hmany hcap
    | others timers now =>
      intro k hk
      obtain ⟨t, ht, hname, hlast⟩ := h.dated k hk
      exact ⟨t, (he.2 t ⟨_, .inr hname⟩).mpr ht, hname, hlast⟩

/-- A stage whose timers fire at their deadlines has one to wait for until it is over, none of them
behind the cap, so that no event finds it running later. -/
theorem stun_stage_cap {timers : TimerSet Bytes} (hidle : Idle timers)
    (hfree : ∀ t ∈ timers.timers, ¬Owned t.name) (hmany : servers.length ≤ 10000000000)
    {start : Millis}
    (hcap : start.toNat + stunStageCapMs servers.length < 2 ^ 64)
    (hrun : Punctual random (Client.made servers timers) start c) :
    c.done = true ∨
      (∃ t ∈ c.timers.timers, Owned t.name ∧
        t.deadline.toNat ≤ start.toNat + stunStageCapMs servers.length) ∧
      ∀ e, c.OnTime e → e.now.toNat ≤ start.toNat + stunStageCapMs servers.length := by
  have h : InTime random servers start c := by
    induction hrun with
    | started => exact start_inTime random servers hidle hfree hcap
    | tail c e _ he htime ih => exact event_inTime ih he htime hmany hcap
  cases hdone : c.done with
  | true => exact .inl rfl
  | false =>
    right
    obtain ⟨answers, hsound⟩ := h.sound
    have hrunning := (hsound.stage.done_iff.mp hdone).resolve_left h.started
    have hbusy : ∃ k, (c.slots k).active = true := by
      cases hsound.stage with
      | running _ _ _ hbusy =>
        by_contra hnone
        exact hbusy fun k => Bool.eq_false_iff.mpr fun hk => hnone ⟨k, hk⟩
      | idle hphase | succeeded hphase | failed hphase =>
        rw [hrunning] at hphase
        cases hphase
    obtain ⟨k, hk⟩ := hbusy
    obtain ⟨t, ht, hname, hlast⟩ := h.dated k hk
    have hlt := (hsound.safe.below k hk).trans_le hsound.safe.bound
    rw [hsound.servers] at hlt
    have hle := hlast.trans (lastMs_le_cap start hlt)
    exact ⟨⟨t, ht, ⟨_, .inr hname⟩, hle⟩,
      fun e htime => (BitVec.le_def.mp (htime.waits t ht ⟨_, .inr hname⟩)).trans hle⟩

/-- Two servers that do not answer are given up together, five seconds after the start. -/
theorem stun_stage_cap_two :
    ∃ c, Punctual sampleRandom (Client.made sampleServers empty) 1000 c ∧ c.done = false ∧
      ∀ e, c.OnTime e → e.now.toNat ≤ 6000 := by
  have hrun : Punctual sampleRandom (Client.made sampleServers empty) 1000
      ((Client.made sampleServers empty).handle sampleRandom (.start 1000)) := .started
  refine ⟨_, hrun, by decide +kernel, ?_⟩
  exact ((stun_stage_cap idle_empty nofun (by decide) (by decide) hrun).resolve_left
    (by decide +kernel)).2

end Sangtachi.StunClient
