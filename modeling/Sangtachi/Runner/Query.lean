import Sangtachi.Runner.Names

/-! # The query of the runner

The STUN client that the runner keeps works on the timers of the loop, among those of the lobby and
of the rest of the program. Each client is a run of one that was made with the list of servers, and
when it goes its timers go with it. -/
namespace Sangtachi.StunClient

open Sangtachi.Stun Sangtachi.Timers
open Sangtachi.Lobby (Bytes)

variable {random : ℕ → Option TransactionId} {now : Millis} {c c' : Client}

theorem Move.begun (hmove : Move random now c c') (h : c.phase ≠ .idle) : c'.phase ≠ .idle := by
  cases hmove with
  | count => exact h
  | drawFailed => exact nofun
  | launch k T =>
    obtain ⟨_, _, _, hsame⟩ := launched_same
      ({ c with nextServer := c.nextServer + 1, draws := c.draws + 1 } : Client) k
        c.nextServer T now
    rw [hsame]
    exact h
  | release k => exact h
  | resend k =>
    obtain ⟨_, _, _, hsame⟩ := resend_same c k now
    rw [hsame]
    exact h
  | mapped => exact h
  | phase p _ hp => exact hp

theorem Moves.begun (hmoves : Moves random now c c') (h : c.phase ≠ .idle) : c'.phase ≠ .idle := by
  induction hmoves with
  | refl => exact h
  | tail _ hmove ih => exact hmove.begun ih

theorem start_begun (hsafe : Safe random c) (hphase : c.phase = .idle) :
    (c.start random now).1.phase ≠ .idle := by
  unfold Client.start
  rw [if_neg (not_not.mpr hphase)]
  split_ifs with hfew
  · exact nofun
  · have hdone : c.done = false := by
      unfold Client.done
      rw [hphase]
      decide
    exact (refill_refilled now hsafe hdone (Nat.not_lt.mp hfew)).started

/-- The timers of two sets are the same, save for those of the client. -/
def SameForeign (timers timers' : TimerSet Bytes) : Prop :=
  ∀ t, ¬Owned t.name → (t ∈ timers'.timers ↔ t ∈ timers.timers)

theorem sameForeign_addOnce (timers : TimerSet Bytes) {name : Bytes} (hname : Owned name)
    (delayMs at' : Millis) :
    SameForeign timers (timers.addOnce name delayMs at').1 := by
  intro t ht
  rw [mem_addOnce]
  refine or_iff_left ?_
  rintro ⟨-, rfl⟩
  exact ht hname

theorem sameForeign_cancel {timers : TimerSet Bytes} (h : Idle timers) {name : Bytes}
    (hname : Owned name) :
    SameForeign timers (timers.cancel name).1 := by
  intro t ht
  rw [mem_cancel h]
  refine and_iff_left ?_
  rintro rfl
  exact ht hname

theorem SameForeign.trans {s t u : TimerSet Bytes} (h : SameForeign s t) (k : SameForeign t u) :
    SameForeign s u :=
  fun x hx => (k x hx).trans (h x hx)

theorem Move.foreign (hmove : Move random now c c') (h : Safe random c) :
    SameForeign c.timers c'.timers := by
  have hrefl : SameForeign c.timers c.timers := fun _ _ => Iff.rfl
  cases hmove with
  | count => exact hrefl
  | drawFailed => exact hrefl
  | launch k T =>
    generalize hC : ({ c with nextServer := c.nextServer + 1, draws := c.draws + 1 } : Client) = C
    have htimers : C.timers = c.timers := by rw [← hC]
    obtain ⟨sends, hsent⟩ := sendRequest_same (C.setSlot k ⟨true, c.nextServer, T, 1⟩) k
    unfold Client.launched Client.addOnce
    rw [hsent]
    show SameForeign c.timers ((C.timers.addOnce _ _ now).1.addOnce _ _ now).1
    rw [htimers]
    exact (sameForeign_addOnce _ ⟨_, .inl rfl⟩ _ _).trans (sameForeign_addOnce _ ⟨_, .inr rfl⟩ _ _)
  | release k =>
    rw [release_eq]
    exact (sameForeign_cancel h.idle ⟨_, .inl rfl⟩).trans
      (sameForeign_cancel (idle_cancel h.idle _) ⟨_, .inr rfl⟩)
  | resend k =>
    obtain ⟨sends, hsent⟩ := sendRequest_same c k
    unfold Client.resend
    rw [hsent]
    dsimp only
    split_ifs
    · exact sameForeign_addOnce _ ⟨_, .inl rfl⟩ _ _
    · exact hrefl
  | mapped => exact hrefl
  | phase => exact hrefl

theorem Moves.foreign (hmoves : Moves random now c c') (h : Safe random c) :
    SameForeign c.timers c'.timers := by
  induction hmoves with
  | refl => exact fun _ _ => Iff.rfl
  | tail hmoves hmove ih => exact ih.trans (hmove.foreign (Moves.safe hmoves h))

theorem owned_of_ownsTimer {name : Bytes} (h : ownsTimer name = true) : Owned name := by
  unfold ownsTimer at h
  rcases Bool.or_eq_true_iff.mp h with h | h
  · obtain ⟨i, hi⟩ := Option.isSome_iff_exists.mp h
    exact ⟨i, .inl (tailIndex_iff.mp hi).2⟩
  · obtain ⟨i, hi⟩ := Option.isSome_iff_exists.mp h
    exact ⟨i, .inr (tailIndex_iff.mp hi).2⟩

theorem onTimer_stray {name : Bytes} (h : ownsTimer name = false) :
    c.onTimer random name now = c := by
  unfold ownsTimer at h
  obtain ⟨hretry, hdeadline⟩ := Bool.or_eq_false_iff.mp h
  unfold Client.onTimer
  rw [Option.isSome_eq_false_iff.mp hretry |> Option.isNone_iff_eq_none.mp,
    Option.isSome_eq_false_iff.mp hdeadline |> Option.isNone_iff_eq_none.mp]
  split_ifs
  · rfl
  · rfl

end Sangtachi.StunClient

namespace Sangtachi.ControlRunner

open Sangtachi.BigEndian Sangtachi.Stun Sangtachi.Timers Sangtachi.Runner
open Sangtachi.Lobby (Bytes TimerName)
open Sangtachi.StunClient (Client Execution Owned OwnedAt SameForeign)

variable {deps : RunnerDeps} {io : RunnerIo} {R R' : ControlRunner}

/-- A client that the runner started, in a run that its timers and datagrams have made. -/
def Began (deps : RunnerDeps) (R : ControlRunner) (c : Client) : Prop :=
  ∃ timers answers, Idle timers ∧ (∀ t ∈ timers.timers, ¬Owned t.name) ∧
    Execution (R.draws deps) (Client.made deps.stunServers timers) answers c

/-- The timers and the client, between two calls of either. -/
structure Looped (deps : RunnerDeps) (R : ControlRunner) : Prop where
  idle : Idle R.timers
  client : ∀ c, R.client = some c → R.Began deps c ∧ c.phase ≠ .idle
  stray : R.stun = none → R.stunReported = false ∧ ∀ t ∈ R.timers.timers, ¬Owned t.name
  known : ∀ t ∈ R.timers.timers, ownsTimer t.name = true → ∃ n, Lobby.ownsTimer n = true ∧
    nameOf n = t.name
  accepted : R.rejected = []

theorem Began.sound {c : Client} (h : R.Began deps c) :
    ∃ answers, StunClient.Sound (R.draws deps) deps.stunServers answers c := by
  obtain ⟨timers, answers, hidle, hfree, hrun⟩ := h
  exact ⟨_, StunClient.execution_sound (StunClient.made_sound _ _ hidle hfree) hrun⟩

theorem Began.event {c : Client} (h : R.Began deps c) {e : StunClient.Event} (he : c.Possible e) :
    R.Began deps (c.handle (R.draws deps) e) := by
  obtain ⟨timers, answers, hidle, hfree, hrun⟩ := h
  exact ⟨timers, _, hidle, hfree, hrun.tail _ _ e he⟩

theorem client_some {c : Client} (h : R.client = some c) :
    ∃ stale, R.stun = some stale ∧ c = { stale with timers := R.timers } := by
  obtain ⟨stale, hstale, rfl⟩ := Option.map_eq_some_iff.mp h
  exact ⟨stale, hstale, rfl⟩

theorem client_of_stun {stale : Client} (h : R.stun = some stale) :
    R.client = some { stale with timers := R.timers } := by
  unfold client
  rw [h]
  rfl

theorem Looped.same (h : R.Looped deps) (htimers : R'.timers = R.timers)
    (hclient : R'.client = R.client) (hreported : R'.stun = none → R'.stunReported = R.stunReported)
    (hqueries : R'.queries = R.queries) (hrejected : R'.rejected = R.rejected) :
    R'.Looped deps where
  idle := by
    rw [htimers]
    exact h.idle
  client := by
    unfold Began draws
    rw [hclient, hqueries]
    exact h.client
  stray := by
    intro hnone
    have hgone : R.client = none := hclient.symm.trans (congrArg _ hnone)
    rw [htimers, hreported hnone]
    exact h.stray (Option.map_eq_none_iff.mp hgone)
  known := by
    rw [htimers]
    exact h.known
  accepted := hrejected.trans h.accepted

theorem Looped.others (h : R.Looped deps) {timers : TimerSet Bytes} (hidle : Idle timers)
    (howned : ∀ t, Owned t.name → (t ∈ timers.timers ↔ t ∈ R.timers.timers))
    (hknown : ∀ t ∈ timers.timers, ownsTimer t.name = true → ∃ n, Lobby.ownsTimer n = true ∧
      nameOf n = t.name) :
    Looped deps { R with timers := timers } where
  idle := hidle
  client := by
    intro c hc
    obtain ⟨stale, hstale, rfl⟩ := client_some hc
    obtain ⟨hbegan, hphase⟩ := h.client _ (client_of_stun hstale)
    exact ⟨hbegan.event (e := .others timers 0) ⟨hidle, howned⟩, hphase⟩
  stray hnone := ⟨(h.stray hnone).1, fun t ht ho => (h.stray hnone).2 t ((howned t ho).mp ht) ho⟩
  known := hknown
  accepted := h.accepted

theorem Looped.call (h : R.Looped deps) {c : Client} (hc : R.client = some c) {e : StunClient.Event}
    (he : c.Possible e) (hentered : SameForeign R.timers (c.entered e).timers) :
    Looped deps (R.withClient (c.handle (R.draws deps) e)) ∧
      SameForeign R.timers (R.withClient (c.handle (R.draws deps) e)).timers := by
  obtain ⟨hbegan, hphase⟩ := h.client c hc
  obtain ⟨answers, hsound⟩ := hbegan.sound
  obtain ⟨hsame, hhandled⟩ := StunClient.event_handled hsound he
  have hforeign : SameForeign R.timers (c.handle (R.draws deps) e).timers :=
    hentered.trans (StunClient.Moves.foreign hhandled.moves hsame.safe)
  have hbegun : (c.handle (R.draws deps) e).phase ≠ .idle := by
    apply StunClient.Moves.begun hhandled.moves
    cases e <;> exact hphase
  refine ⟨⟨hhandled.sound.safe.idle, ?_, nofun, ?_, h.accepted⟩, hforeign⟩
  · rintro _ ⟨⟩
    exact ⟨hbegan.event he, hbegun⟩
  · intro t ht hname
    have hnot : ¬Owned t.name := fun ho => by simp [owned_not_lobby ho] at hname
    exact h.known t ((hforeign t hnot).mp ht) hname

theorem Looped.erased (h : R.Looped deps) {t : Timer Bytes} (ht : t ∈ R.timers.timers)
    (ho : Owned t.name) :
    SameForeign R.timers (R.timers.erase t.id) := by
  intro u hu
  rw [mem_erase]
  refine and_iff_left_of_imp fun hmem hid => ?_
  exact hu (id_unique h.idle.wellFormed hmem ht hid ▸ ho)

/-! ## The end of a client -/

theorem cancelQuery_mem {timers : TimerSet Bytes} (h : Idle timers) (i : ℕ) :
    Idle (cancelQuery timers i) ∧
      ∀ t, t ∈ (cancelQuery timers i).timers ↔ t ∈ timers.timers ∧ ¬OwnedAt i t.name := by
  refine ⟨idle_cancel (idle_cancel h _) _, fun t => ?_⟩
  unfold cancelQuery
  rw [mem_cancel (idle_cancel h _), mem_cancel h, and_assoc]
  exact and_congr_right fun _ => not_or.symm

theorem cancelQueries_mem {timers : TimerSet Bytes} (h : Idle timers) (n : ℕ) :
    Idle ((List.range n).foldl cancelQuery timers) ∧ ∀ t,
      t ∈ ((List.range n).foldl cancelQuery timers).timers ↔
        t ∈ timers.timers ∧ ∀ i < n, ¬OwnedAt i t.name := by
  induction n with
  | zero => exact ⟨h, fun t => ⟨fun ht => ⟨ht, nofun⟩, And.left⟩⟩
  | succ n ih =>
    rw [List.range_succ, List.foldl_append]
    obtain ⟨hidle, hmem⟩ := cancelQuery_mem ih.1 n
    refine ⟨hidle, fun t => ?_⟩
    show t ∈ (cancelQuery _ n).timers ↔ _
    rw [hmem t, ih.2 t, and_assoc]
    refine and_congr_right fun _ => ⟨fun ⟨hbelow, hlast⟩ i hi => ?_, fun hall => ?_⟩
    · rcases Nat.lt_succ_iff_lt_or_eq.mp hi with hlt | rfl
      · exact hbelow i hlt
      · exact hlast
    · exact ⟨fun i hi => hall i (hi.trans (Nat.lt_succ_self n)), hall n (Nat.lt_succ_self n)⟩

/-- The timers of a client are those of servers in its list, so that none is left when it goes. -/
theorem Looped.drop (h : R.Looped deps) :
    Looped deps (R.dropStun deps) ∧ SameForeign R.timers (R.dropStun deps).timers ∧
    (R.dropStun deps).stun = none := by
  unfold dropStun
  cases hstun : R.stun with
  | none => exact ⟨h, fun _ _ => Iff.rfl, hstun⟩
  | some stale =>
    obtain ⟨hidle, hmem⟩ := cancelQueries_mem h.idle deps.stunServers.length
    obtain ⟨answers, hsound⟩ := (h.client _ (client_of_stun hstun)).1.sound
    refine ⟨⟨hidle, nofun, fun _ => ⟨rfl, ?_⟩, ?_, h.accepted⟩, ?_, rfl⟩
    · rintro t ht ⟨i, hi⟩
      obtain ⟨hold, hgone⟩ := (hmem t).mp ht
      obtain ⟨k, hk, rfl⟩ := hsound.safe.owned t hold i hi
      have hlt := (hsound.safe.below k hk).trans_le hsound.safe.bound
      rw [hsound.servers] at hlt
      exact hgone _ hlt hi
    · exact fun t ht hname => h.known t ((hmem t).mp ht).1 hname
    · intro t ht
      refine (hmem t).trans (and_iff_left fun i _ hi => ?_)
      exact ht ⟨i, hi⟩

theorem Looped.start (h : R.Looped deps) (hstun : R.stun = none) (now : Millis) :
    let c := ((Client.made deps.stunServers R.timers).start (deps.random R.queries) now).1
    Looped deps ({ R with queries := R.queries + 1, stunReported := false }.withClient c) ∧
      SameForeign R.timers c.timers := by
  intro c
  have hfree := (h.stray hstun).2
  have hsound := StunClient.made_sound (deps.random R.queries) deps.stunServers h.idle hfree
  have hhandled := StunClient.start_handled hsound now
  have hforeign : SameForeign R.timers c.timers :=
    StunClient.Moves.foreign hhandled.moves hsound.safe
  refine ⟨⟨hhandled.sound.safe.idle, ?_, nofun, ?_, h.accepted⟩, hforeign⟩
  · rintro _ ⟨⟩
    have hfirst :
      Execution (deps.random R.queries) (Client.made deps.stunServers R.timers) ∅ _ := .refl
    exact ⟨⟨R.timers, _, h.idle, hfree, hfirst.tail _ _ (.start now) trivial⟩,
      StunClient.start_begun hsound.safe rfl⟩
  · intro t ht hname
    have hnot : ¬Owned t.name := fun ho => by simp [owned_not_lobby ho] at hname
    exact h.known t ((hforeign t hnot).mp ht) hname

end Sangtachi.ControlRunner
