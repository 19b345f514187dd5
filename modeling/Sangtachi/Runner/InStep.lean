import Sangtachi.Runner.Endings

/-! # The lobby and its runner in step

The books of the lobby run ahead of the actions that still wait, and new events come in while they
do. What the loop holds and the actions that wait lead together to what the lobby takes to be so. -/
namespace Sangtachi.Lobby

variable {L : Lobby} {v w : View}

theorem actions_view (hinv : Invariant L) (hof : w.Of L) (io : LobbyIo) (event : LobbyEvent) :
    ∃ w', (L.step io event).actions.foldlM View.act (w.before event) = some w' ∧
      w'.Of (L.step io event) := by
  obtain ⟨⟨w', hfold, hof'⟩, -⟩ := step_shown hinv hof io event
  refine ⟨w', ?_, hof'⟩
  unfold actions Batch.finish
  rw [List.foldlM_append, hfold]
  cases (L.step io event).out.request with
  | none => rfl
  | some r => rfl

theorem actions_tame (hinv : Invariant L) (io : LobbyIo) (event : LobbyEvent) :
    (L.step io event).actions.countP isStart ≤ startsOf event ∧
      ∀ a ∈ (L.step io event).actions, isStart a = false → isUsual a = true := by
  have htame := step_tame hinv io event
  unfold actions Batch.finish
  constructor
  · rw [List.countP_append, List.countP_map]
    have hnone :
      ((L.step io event).out.request.toList.countP (isStart ∘ LobbyAction.submitRequest)) = 0 :=
      List.countP_eq_zero.mpr fun _ _ => Bool.false_ne_true
    rw [hnone]
    exact htame.starts
  · intro a ha hnot
    rcases List.mem_append.mp ha with hold | hlast
    · exact htame.own a hold hnot
    · obtain ⟨r, -, rfl⟩ := List.mem_map.mp hlast
      rfl

theorem submits_append (as bs : List LobbyAction) : submits (as ++ bs) = submits as ++ submits bs :=
  List.filterMap_append

theorem fold_stun_off {as : List LobbyAction} (hcount : as.countP isStart = 0)
    (hfold : as.foldlM View.act v = some w) :
    as.foldlM View.act { v with stun := false } = some { w with stun := false } := by
  induction as generalizing v with
  | nil =>
    obtain rfl := Option.some.inj hfold
    rfl
  | cons a as ih =>
    rw [List.countP_cons] at hcount
    rw [List.foldlM_cons] at hfold ⊢
    obtain ⟨v', hact, hrest⟩ := Option.bind_eq_some_iff.mp hfold
    have hoff : View.act { v with stun := false } a = some { v' with stun := false } := by
      cases a with
      | armTimer name delayMs =>
        unfold View.act at hact ⊢
        dsimp only at hact ⊢
        split_ifs at hact ⊢ with hmem
        obtain rfl := Option.some.inj hact
        rfl
      | startStun => simp [isStart] at hcount
      | _ =>
        obtain rfl := Option.some.inj hact
        rfl
    rw [hoff]
    exact ih (Nat.eq_zero_of_add_eq_zero_right hcount) hrest

end Sangtachi.Lobby

namespace Sangtachi.ControlRunner

open Sangtachi.BigEndian Sangtachi.Stun Sangtachi.Timers Sangtachi.Runner
open Sangtachi.Lobby
  (Bytes Op LobbyAction LobbyEvent TimerName View SubmitRequest submits isStart isUsual startsOf
  consumes)
open Sangtachi.StunClient (Client Execution Owned OwnedAt SameForeign)

variable {deps : RunnerDeps} {io : RunnerIo} {R R' : ControlRunner} {v : View} {ops : List Op}

/-! ## What the loop shows -/

/-- A query is under way, and the lobby was not told of its end. -/
def Asking (R : ControlRunner) : Prop := R.stun.isSome = true ∧ R.stunReported = false

def Holds (R : ControlRunner) (n : TimerName) : Prop := ∃ t ∈ R.timers.timers, t.name = nameOf n

structure Shows (R : ControlRunner) (v : View) : Prop where
  timers : ∀ n, Lobby.ownsTimer n = true → (n ∈ v.timers ↔ R.Holds n)
  stun : v.stun = true ↔ R.Asking

/-- The actions that wait lead from the view to that of the lobby; `ops` are the requests that were
handed on and not answered. -/
structure Queued (R : ControlRunner) (v : View) (ops : List Op) : Prop where
  lobby : Lobby.Invariant R.lobby
  view : ∃ w, R.queue.foldlM View.act v = some w ∧ w.Of R.lobby
  starts : R.queue.countP isStart ≤ 1
  usual : ∀ a ∈ R.queue, isStart a = false → isUsual a = true
  balanced : Lobby.Balanced R.lobby (ops ++ (submits R.queue).map (·.op))

structure Synced (deps : RunnerDeps) (R : ControlRunner) : Prop where
  view : ∃ v, R.Shows v ∧ R.Queued v (R.inFlight.map (·.op))
  loop : R.Looped deps
  told : ∀ c, R.stun = some c → R.stunReported = c.done
  ended : R.running = false → R.queue = []

theorem nameOf_foreign {n : TimerName} (h : Lobby.ownsTimer n = true) : ¬Owned (nameOf n) := by
  intro ho
  have hname := (timerOf_name h).1
  rw [owned_not_lobby ho] at hname
  cases hname

theorem holds_foreign (htimers : SameForeign R.timers R'.timers) {n : TimerName}
    (hn : Lobby.ownsTimer n = true) :
    R'.Holds n ↔ R.Holds n := by
  refine exists_congr fun t => and_congr_left fun hname => ?_
  have hforeign : ¬Owned t.name := hname ▸ nameOf_foreign hn
  exact htimers t hforeign

theorem Shows.same (h : R.Shows v) (htimers : SameForeign R.timers R'.timers)
    (hstun : R'.Asking ↔ R.Asking) : R'.Shows v where
  timers n hn := (h.timers n hn).trans (holds_foreign htimers hn).symm
  stun := h.stun.trans hstun.symm

theorem Queued.same (h : R.Queued v ops) (hlobby : R'.lobby = R.lobby)
    (hqueue : R'.queue = R.queue) : R'.Queued v ops where
  lobby := by
    rw [hlobby]
    exact h.lobby
  view := by
    rw [hlobby, hqueue]
    exact h.view
  starts := by
    rw [hqueue]
    exact h.starts
  usual := by
    rw [hqueue]
    exact h.usual
  balanced := by
    rw [hlobby, hqueue]
    exact h.balanced

/-! ## Events of the lobby -/

/-- The lobby is told of an event while the actions of earlier ones may still wait. -/
theorem Queued.entered {e : LobbyEvent} {w : View} (hinv : Lobby.Invariant R.lobby)
    (hview : R.queue.foldlM View.act v = some (w.before e)) (hof : w.Of R.lobby)
    (hstarts : R.queue.countP isStart + startsOf e ≤ 1)
    (husual : ∀ a ∈ R.queue, isStart a = false → isUsual a = true)
    (hbalanced : Lobby.Balanced (R.lobby.consumed e) (ops ++ (submits R.queue).map (·.op))) :
    Queued (R.enter io e) v ops := by
  obtain ⟨w', hfold, hof'⟩ := Lobby.actions_view hinv hof io.lobby e
  obtain ⟨hcount, hother⟩ := Lobby.actions_tame hinv io.lobby e
  have hplain := Lobby.step_plain hinv hof io.lobby e
  constructor
  · exact Lobby.step_invariant hinv io.lobby e
  · refine ⟨w', ?_, hof'⟩
    show (R.queue ++ _).foldlM View.act v = _
    rw [List.foldlM_append, hview]
    exact hfold
  · show (R.queue ++ _).countP isStart ≤ 1
    rw [List.countP_append]
    exact (Nat.add_le_add_left hcount _).trans hstarts
  · intro a ha
    rcases List.mem_append.mp ha with hold | hnew
    · exact husual a hold
    · exact hother a hnew
  · show Lobby.Balanced _ (ops ++ (submits (R.queue ++ _)).map _)
    rw [Lobby.submits_append, Lobby.submits_actions hplain, List.map_append, ← List.append_assoc]
    exact (Lobby.step_turned hinv io.lobby e).balanced hbalanced (Lobby.consumed_request R.lobby e)

theorem Queued.tells (h : R.Queued v ops) {e : LobbyEvent} (hbefore : ∀ w : View, w.before e = w)
    (hconsumes : consumes e = false) (hstarts : R.queue.countP isStart + startsOf e ≤ 1) :
    Queued (R.enter io e) v ops := by
  obtain ⟨w, hview, hof⟩ := h.view
  apply Queued.entered h.lobby (w := w) _ hof hstarts h.usual
  · have hconsumed := h.balanced.consumed e
    rw [hconsumes] at hconsumed
    exact hconsumed
  · rw [hbefore]
    exact hview

theorem Queued.pop (h : R.Queued v ops) {a : LobbyAction} {rest : List LobbyAction}
    (hqueue : R.queue = a :: rest) :
    ∃ v', View.act v a = some v' ∧
      Queued { R with queue := rest } v' (ops ++ (submits [a]).map (·.op)) ∧
      (isStart a = true → rest.countP isStart = 0) ∧ (isStart a = false → isUsual a = true) := by
  obtain ⟨hlobby, ⟨w, hfold, hof⟩, hstarts, husual, hbalanced⟩ := h
  rw [hqueue] at hfold hstarts husual hbalanced
  rw [List.foldlM_cons] at hfold
  obtain ⟨v', hact, hrest⟩ := Option.bind_eq_some_iff.mp hfold
  rw [List.countP_cons] at hstarts
  refine ⟨v', hact, ⟨hlobby, ⟨w, hrest, hof⟩, ?_, ?_, ?_⟩, ?_, husual a List.mem_cons_self⟩
  · exact (Nat.le_add_right _ _).trans hstarts
  · exact fun b hb => husual b (List.mem_cons_of_mem a hb)
  · show Lobby.Balanced _ (ops ++ _ ++ (submits rest).map _)
    rw [List.append_assoc, ← List.map_append, ← Lobby.submits_append]
    exact hbalanced
  · intro hstart
    rw [hstart, if_pos rfl] at hstarts
    exact Nat.le_zero.mp (Nat.le_of_succ_le_succ hstarts)

/-! ## The end of a query -/

/-- Where no query is still to be started, the lobby may be told that the one it has is over. -/
theorem checkStunDone_synced (hshows : R.Shows v) (hqueued : R.Queued v (R.inFlight.map (·.op)))
    (hloop : R.Looped deps) (htold : ∀ c, R.stun = some c → R.stunReported = true → c.done = true)
    (hcount : R.queue.countP isStart = 0) (hended : R.running = false → R.queue = []) :
    (R.checkStunDone io).Synced deps := by
  have hsame : (∀ c, R.stun = some c → R.stunReported = c.done) → R.Synced deps :=
    fun heq => ⟨⟨v, hshows, hqueued⟩, hloop, heq, hended⟩
  unfold checkStunDone
  cases hstun : R.stun with
  | none => exact hsame fun c hc => by rw [hstun] at hc; cases hc
  | some c =>
    dsimp only
    split_ifs with hquiet
    · apply hsame
      rintro c' hc'
      obtain rfl : c = c' := Option.some.inj (hstun.symm.trans hc')
      rcases hquiet with hreported | hrunning
      · rw [hreported, htold c hstun hreported]
      · have hdone : c.done = false := by simpa using hrunning
        rw [hdone]
        by_contra hreported
        rw [htold c hstun (by simpa using hreported)] at hdone
        cases hdone
    · obtain ⟨hreported, hdone⟩ : R.stunReported = false ∧ c.done = true := by simpa using hquiet
      obtain ⟨w, hfold, hof⟩ := hqueued.view
      have hoff := Lobby.fold_stun_off hcount hfold
      refine ⟨⟨{ v with stun := false }, ⟨hshows.timers, nofun, ?_⟩, ?_⟩, ?_, ?_, nofun⟩
      · exact fun hasking => absurd hasking.2 Bool.noConfusion
      · exact Queued.entered (w := w) hqueued.lobby hoff hof (hcount ▸ Nat.zero_le 1) hqueued.usual
          (hqueued.balanced.consumed (.stunDone _ _))
      · exact hloop.same rfl (client_of_stun hstun).symm nofun rfl rfl
      · rintro _ ⟨⟩
        exact hdone.symm

/-! ## Actions -/

theorem balanced_alone {L : Lobby} {op : Op} {after : List Op}
    (h : Lobby.Balanced L (ops ++ [op] ++ after)) :
    ops = [] ∧ after = [] := by
  unfold Lobby.Balanced at h
  have hlength := congrArg List.length h
  have hone : L.underWay.toList.length ≤ 1 := by cases L.underWay <;> simp
  simp only [List.length_append, List.length_singleton] at hlength
  exact ⟨List.eq_nil_of_length_eq_zero (by omega), List.eq_nil_of_length_eq_zero (by omega)⟩

/-- A runner whose queue lost its first action, and that has to carry it out. -/
structure Taken (deps : RunnerDeps) (R : ControlRunner) (v : View) (a : LobbyAction)
    (v' : View) : Prop where
  shows : R.Shows v
  act : View.act v a = some v'
  queued : R.Queued v' (R.inFlight.map (·.op) ++ (submits [a]).map (·.op))
  lastStart : isStart a = true → R.queue.countP isStart = 0
  usual : isStart a = false → isUsual a = true
  loop : R.Looped deps
  told : ∀ c, R.stun = some c → R.stunReported = c.done
  running : R.running = true

variable {v' : View} {a : LobbyAction}

theorem Taken.notIdle (h : R.Taken deps v a v') : R.running ≠ false := fun hidle =>
  Bool.noConfusion (h.running.symm.trans hidle)

/-- An action that touches neither the timers nor the query nor a request. -/
theorem Taken.plain (h : R.Taken deps v a v') (hact : View.act v a = some v)
    (hsubmits : submits [a] = [])
    (hsame : R' = { R with
      events := R'.events, tracks := R'.tracks, lastAttempt := R'.lastAttempt, records :=
        R'.records, opened := R'.opened }) :
    R'.Synced deps := by
  obtain rfl := Option.some.inj (h.act.symm.trans hact)
  have hqueued := h.queued
  rw [hsubmits, List.map_nil, List.append_nil] at hqueued
  rw [hsame]
  exact ⟨⟨_, ⟨h.shows.timers, h.shows.stun⟩, hqueued.same rfl rfl⟩,
    h.loop.same rfl rfl (fun _ => rfl) rfl rfl, h.told,
    fun hidle => (h.notIdle hidle).elim⟩

theorem submit_synced {request : SubmitRequest} (h : R.Taken deps v (.submitRequest request) v') :
    (R.submit deps io request).Synced deps := by
  obtain rfl := Option.some.inj h.act
  have hdropped : (R.enter io .submitDropped).Synced deps := by
    obtain ⟨hnone, hlast⟩ := balanced_alone h.queued.balanced
    obtain ⟨w, hview, hof⟩ := h.queued.view
    have hbalanced := h.queued.balanced.consumed .submitDropped
    rw [hnone, hlast] at hbalanced
    refine ⟨⟨v, ⟨h.shows.timers, h.shows.stun⟩,
      Queued.entered h.queued.lobby hview hof h.queued.starts h.queued.usual ?_⟩,
      h.loop.same rfl rfl (fun _ => rfl) rfl rfl, h.told, nofun⟩
    show Lobby.Balanced _ (R.inFlight.map (·.op) ++ (submits R.queue).map (·.op))
    rw [hnone, hlast]
    exact hbalanced
  unfold submit
  split
  case h_2 => exact hdropped
  case h_1 bytes _ =>
    split_ifs
    · refine ⟨⟨v, ⟨h.shows.timers, h.shows.stun⟩, ?_⟩,
        h.loop.same rfl rfl (fun _ => rfl) rfl rfl, h.told,
        fun hidle => (h.notIdle hidle).elim⟩
      have hqueued := h.queued
      show Queued _ v ((R.inFlight ++ [_]).map _)
      rw [List.map_append]
      exact hqueued.same rfl rfl
    · exact hdropped

theorem arm_synced {name : TimerName} {delayMs : ℕ}
    (h : R.Taken deps v (.armTimer name delayMs) v') :
    (R.armTimer io (nameOf name) delayMs).Synced deps := by
  have hname : Lobby.ownsTimer name = true := h.usual rfl
  have hact := h.act
  unfold View.act at hact
  dsimp only at hact
  split_ifs at hact with hnot
  obtain rfl := Option.some.inj hact
  have hfree : R.timers.contains (nameOf name) = false := by
    by_contra hheld
    exact hnot
      ((h.shows.timers name hname).mpr ((contains_idle h.loop.idle).mp (by simpa using hheld)))
  have hadded : (R.timers.addOnce (nameOf name) (BitVec.ofNat 64 delayMs) io.clock).2 = true :=
    (add_free hfree _ _).2
  have hmem : ∀ t,
    t ∈ (R.timers.addOnce (nameOf name) (BitVec.ofNat 64 delayMs) io.clock).1.timers ↔
      _ := fun t => mem_addOnce
  have hidle := idle_addOnce h.loop.idle (nameOf name) (BitVec.ofNat 64 delayMs) io.clock
  unfold armTimer
  generalize R.timers.addOnce (nameOf name) (BitVec.ofNat 64 delayMs) io.clock =
    added at hadded hmem hidle ⊢
  obtain ⟨timers, _⟩ := added
  obtain rfl := hadded
  dsimp only at hmem hidle ⊢
  have hloop := h.loop.others hidle
    (fun t ho =>
      (hmem t).trans (or_iff_left fun hnew => nameOf_foreign hname (by rwa [hnew.2] at ho)))
    (fun t ht ho => by
      rcases (hmem t).mp ht with hold | ⟨-, rfl⟩
      · exact h.loop.known t hold ho
      · exact ⟨name, hname, rfl⟩)
  have hqueued := h.queued
  rw [show submits [.armTimer name delayMs] = [] from rfl, List.map_nil, List.append_nil] at hqueued
  refine ⟨⟨{ v with timers := v.timers ++ [name] }, ⟨fun n hn => ?_, h.shows.stun⟩,
    hqueued.same rfl rfl⟩, hloop, h.told,
    fun hidle => (h.notIdle hidle).elim⟩
  show n ∈ v.timers ++ [name] ↔ ∃ t ∈ timers.timers, t.name = nameOf n
  rw [List.mem_append, List.mem_singleton, h.shows.timers n hn]
  constructor
  · rintro (⟨t, ht, htn⟩ | rfl)
    · exact ⟨t, (hmem t).mpr (.inl ht), htn⟩
    · exact ⟨_, (hmem _).mpr (.inr ⟨hfree, rfl⟩), rfl⟩
  · rintro ⟨t, ht, htn⟩
    rcases (hmem t).mp ht with hold | ⟨-, rfl⟩
    · exact .inl ⟨t, hold, htn⟩
    · exact .inr (nameOf_injective hn hname htn.symm)

theorem cancel_synced {name : TimerName} (h : R.Taken deps v (.cancelTimer name) v') :
    Synced deps { R with timers := (R.timers.cancel (nameOf name)).1 } := by
  have hname : Lobby.ownsTimer name = true := h.usual rfl
  obtain rfl := Option.some.inj h.act
  have hmem : ∀ t, t ∈ (R.timers.cancel (nameOf name)).1.timers ↔ _ :=
    fun t => mem_cancel h.loop.idle
  have hloop := h.loop.others (idle_cancel h.loop.idle _)
    (fun t ho => (hmem t).trans (and_iff_left fun heq => nameOf_foreign hname (heq ▸ ho)))
    (fun t ht ho => h.loop.known t ((hmem t).mp ht).1 ho)
  have hqueued := h.queued
  rw [show submits [.cancelTimer name] = [] from rfl, List.map_nil, List.append_nil] at hqueued
  refine ⟨⟨{ v with timers := v.timers.filter (· ≠ name) }, ⟨fun n hn => ?_, h.shows.stun⟩,
    hqueued.same rfl rfl⟩, hloop,
    h.told, fun hidle => (h.notIdle hidle).elim⟩
  show n ∈ v.timers.filter (· ≠ name) ↔
    ∃ t ∈ (R.timers.cancel (nameOf name)).1.timers, t.name = nameOf n
  simp only [List.mem_filter, h.shows.timers n hn, decide_eq_true_eq, hmem]
  constructor
  · rintro ⟨⟨t, ht, htn⟩, hne⟩
    exact ⟨t, ⟨ht, fun heq => hne (nameOf_injective hn hname (htn.symm.trans heq))⟩, htn⟩
  · rintro ⟨t, ⟨ht, hother⟩, htn⟩
    exact ⟨⟨t, ht, htn⟩, fun heq => hother (htn.trans (heq ▸ rfl))⟩

theorem dropStun_same (deps : RunnerDeps) (R : ControlRunner) : (R.dropStun deps).lobby = R.lobby ∧
    (R.dropStun deps).queue = R.queue ∧ (R.dropStun deps).inFlight = R.inFlight ∧
    (R.dropStun deps).running = R.running := by
  unfold dropStun
  split
  · exact ⟨rfl, rfl, rfl, rfl⟩
  · exact ⟨rfl, rfl, rfl, rfl⟩

theorem cancelStun_synced (h : R.Taken deps v .cancelStun v') : (R.dropStun deps).Synced deps := by
  obtain rfl := Option.some.inj h.act
  obtain ⟨hlobby, hqueue, hinFlight, hrunning⟩ := dropStun_same deps R
  obtain ⟨hloop, htimers, hnone⟩ := h.loop.drop
  have hqueued := h.queued
  rw [show submits [.cancelStun] = [] from rfl, List.map_nil, List.append_nil,
    ← hinFlight] at hqueued
  have hkept := fun n (hn : Lobby.ownsTimer n = true) =>
    (h.shows.timers n hn).trans (holds_foreign htimers hn).symm
  refine ⟨⟨{ v with stun := false }, ⟨hkept, nofun, ?_⟩, hqueued.same hlobby hqueue⟩, hloop, ?_, ?_⟩
  · intro hasking
    have hsome := hasking.1
    rw [hnone] at hsome
    cases hsome
  · intro c hc
    rw [hnone] at hc
    cases hc
  · intro hidle
    exact (h.notIdle (hrunning.symm.trans hidle)).elim

theorem startStun_synced (h : R.Taken deps v .startStun v') :
    (R.startStun deps io).Synced deps := by
  have hact := h.act
  unfold View.act at hact
  dsimp only at hact
  split_ifs at hact
  obtain rfl := Option.some.inj hact
  obtain ⟨hlobby, hqueue, hinFlight, hrunning⟩ := dropStun_same deps R
  obtain ⟨hloop, htimers, hnone⟩ := h.loop.drop
  obtain ⟨hstarted, hown⟩ := hloop.start hnone io.clock
  have hqueued := h.queued
  rw [show submits [.startStun] = [] from rfl, List.map_nil, List.append_nil,
    ← hinFlight] at hqueued
  have hcount := h.lastStart rfl
  rw [← hqueue] at hcount
  unfold startStun
  dsimp only
  refine checkStunDone_synced (v := { v with stun := true }) ⟨?_, fun _ => ⟨rfl, rfl⟩, fun _ => rfl⟩
    (hqueued.same hlobby hqueue) hstarted
      (fun _ _ hreported => absurd hreported Bool.false_ne_true) hcount ?_
  · exact fun n hn => (h.shows.timers n hn).trans (holds_foreign (htimers.trans hown) hn).symm
  · intro hidle
    exact (h.notIdle (hrunning.symm.trans hidle)).elim

theorem openSession_synced {request : Tunnel.NewSession} {name : Bytes} {role : Lobby.LobbyRole}
    {setupBaseMs : ℕ} (h : R.Taken deps v (.openSession request name role setupBaseMs) v') :
    (R.openSession io request.peerId role setupBaseMs).Synced deps := by
  unfold openSession
  dsimp only
  split_ifs
  · exact h.plain rfl rfl rfl
  · have hmoved : (R.pushMoved io).Synced deps := h.plain rfl rfl rfl
    obtain ⟨⟨w, hshows, hqueued⟩, hloop, htold, -⟩ := hmoved
    exact ⟨⟨w, ⟨hshows.timers, hshows.stun⟩, hqueued.tells (fun _ => rfl) rfl hqueued.starts⟩,
      hloop.same rfl rfl (fun _ => rfl) rfl rfl, htold, nofun⟩

theorem execute_synced (h : R.Taken deps v a v') : (R.execute deps io a).Synced deps := by
  cases a with
  | submitRequest request => exact submit_synced h
  | startStun => exact startStun_synced h
  | cancelStun => exact cancelStun_synced h
  | armTimer name delayMs => exact arm_synced h
  | cancelTimer name => exact cancel_synced h
  | openSession request name role setupBaseMs => exact openSession_synced h
  | _ => exact h.plain rfl rfl rfl

theorem Synced.taken (h : R.Synced deps) (hrunning : R.running = true) {rest : List LobbyAction}
    (hqueue : R.queue = a :: rest) :
    ∃ v v', Taken deps { R with queue := rest, carried := R.carried ++ [a] } v a v' := by
  obtain ⟨v, hshows, hqueued⟩ := h.view
  obtain ⟨v', hact, hpopped, hlast, husual⟩ := hqueued.pop hqueue
  exact ⟨v, v', ⟨hshows.timers, hshows.stun⟩, hact, hpopped.same rfl rfl, hlast, husual,
    h.loop.same rfl rfl (fun _ => rfl) rfl rfl,
    h.told, hrunning⟩

theorem Synced.tells (h : R.Synced deps) {e : LobbyEvent} (hbefore : ∀ w : View, w.before e = w)
    (hconsumes : consumes e = false) (hstarts : startsOf e = 0) : (R.enter io e).Synced deps := by
  obtain ⟨v, hshows, hqueued⟩ := h.view
  refine ⟨⟨v, ⟨hshows.timers, hshows.stun⟩, hqueued.tells hbefore hconsumes ?_⟩,
    h.loop.same rfl rfl (fun _ => rfl) rfl rfl, h.told, nofun⟩
  rw [hstarts]
  exact hqueued.starts

theorem turn_synced (h : R.Synced deps) (hrunning : R.running = true) :
    (R.turn deps io).Synced deps := by
  obtain ⟨v, hshows, hqueued⟩ := h.view
  unfold turn
  split
  case h_1 action rest hqueue =>
    obtain ⟨v, v', htaken⟩ := h.taken hrunning hqueue
    exact execute_synced htaken
  case h_2 hqueue =>
    split
    case h_1 queued rest hevents =>
      obtain ⟨tracks, lastAttempt, records, hrecord⟩ := record_same { R with events := rest } queued
      rw [hrecord]
      apply Synced.tells _ (fun _ => rfl) rfl rfl
      exact ⟨⟨v, ⟨hshows.timers, hshows.stun⟩, hqueued.same rfl rfl⟩,
        h.loop.same rfl rfl (fun _ => rfl) rfl rfl, h.told, h.ended⟩
    case h_2 =>
      exact ⟨⟨v, ⟨hshows.timers, hshows.stun⟩, hqueued.same rfl rfl⟩,
        h.loop.same rfl rfl (fun _ => rfl) rfl rfl, h.told,
        fun _ => hqueue⟩

/-! ## Calls of the loop -/

theorem Synced.quiet (h : R.Synced deps) (hqueue : R.queue = []) :
    ∃ v : View, R.Shows v ∧ v.Of R.lobby ∧ R.Queued v (R.inFlight.map (·.op)) := by
  obtain ⟨v, hshows, hqueued⟩ := h.view
  obtain ⟨w, hfold, hof⟩ := hqueued.view
  rw [hqueue] at hfold
  obtain rfl := Option.some.inj hfold
  exact ⟨v, hshows, hof, hqueued⟩

theorem Synced.pending (h : R.Synced deps) (hqueue : R.queue = []) :
    R.inFlight.map (·.op) = R.lobby.underWay.toList := by
  obtain ⟨v, -, -, hqueued⟩ := h.quiet hqueue
  have hbalanced := hqueued.balanced
  rw [hqueue] at hbalanced
  rw [← hbalanced]
  exact (List.append_nil _).symm

theorem Synced.answers (h : R.Synced deps) (hqueue : R.queue = []) {response : ControlResponse}
    (hpossible : R.Possible (.response response)) :
    R.lobby.underWay = some response.op ∧
      (R.inFlight.eraseP fun q => q.op = response.op ∧ q.selfPeerId = response.selfPeerId) =
        [] := by
  obtain ⟨q, hq, hop, hself⟩ := hpossible
  have hpending := h.pending hqueue
  cases hunder : R.lobby.underWay with
  | none =>
    rw [hunder] at hpending
    rw [List.map_eq_nil_iff.mp hpending] at hq
    cases hq
  | some op =>
    rw [hunder] at hpending
    obtain ⟨q', hone, rfl⟩ : ∃ q', R.inFlight = [q'] ∧ q'.op = op := by
      match R.inFlight, hpending with
      | [q'], heq => exact ⟨q', rfl, by simpa using heq⟩
    rw [hone] at hq ⊢
    obtain rfl := List.mem_singleton.mp hq
    refine ⟨congrArg some hop, ?_⟩
    rw [List.eraseP_cons_of_pos (by simp [hop, hself])]

theorem response_synced (h : R.Synced deps) (hqueue : R.queue = []) {response : ControlResponse}
    (hpossible : R.Possible (.response response)) :
    (R.input deps io (.response response)).Synced deps := by
  obtain ⟨v, hshows, hof, hqueued⟩ := h.quiet hqueue
  obtain ⟨-, hnone⟩ := h.answers hqueue hpossible
  have hbalanced := hqueued.balanced.consumed (.reply (interpret response io.own))
  rw [show consumes (.reply (interpret response io.own)) = true from rfl, if_pos rfl,
    h.pending hqueue, hqueue] at hbalanced
  have hdrop : (R.lobby.underWay.toList ++ (submits []).map (·.op)).drop 1 = [] := by
    cases R.lobby.underWay <;> rfl
  rw [hdrop] at hbalanced
  unfold input
  dsimp only
  rw [hnone]
  refine ⟨⟨v, ⟨hshows.timers, hshows.stun⟩, Queued.entered (w := v) hqueued.lobby ?_ hof ?_ ?_ ?_⟩,
    h.loop.same rfl rfl (fun _ => rfl) rfl rfl, h.told, nofun⟩
  · show R.queue.foldlM View.act v = _
    rw [hqueue]
    rfl
  · show R.queue.countP isStart + 1 ≤ 1
    rw [hqueue]
    exact le_rfl
  · exact hqueued.usual
  · show Lobby.Balanced _ ([] ++ (submits R.queue).map _)
    rw [hqueue]
    exact hbalanced

theorem call_synced (h : R.Synced deps) (hqueue : R.queue = []) {c : Client}
    (hc : R.client = some c) {e : StunClient.Event} (he : c.Possible e)
    (hentered : SameForeign R.timers (c.entered e).timers)
    (hdone : c.done = true → (c.handle (R.draws deps) e).done = true) :
    ((R.withClient (c.handle (R.draws deps) e)).checkStunDone io).Synced deps := by
  obtain ⟨v, hshows, hof, hqueued⟩ := h.quiet hqueue
  obtain ⟨hloop, hforeign⟩ := h.loop.call hc he hentered
  obtain ⟨stale, hstun, hsame⟩ := client_some hc
  have hasking : (R.withClient (c.handle (R.draws deps) e)).Asking ↔ R.Asking := by
    unfold Asking
    rw [hstun]
    exact Iff.rfl
  refine checkStunDone_synced (hshows.same hforeign hasking)
    (hqueued.same rfl rfl) hloop ?_ ?_ h.ended
  · rintro _ ⟨⟩ hreported
    apply hdone
    have htold := h.told stale hstun
    rw [show R.stunReported = true from hreported] at htold
    rw [hsame]
    exact htold.symm
  · show R.queue.countP isStart = 0
    rw [hqueue]
    rfl

theorem handle_done {c : Client} (h : R.Began deps c) {e : StunClient.Event} (he : c.Possible e)
    (hdone : c.done = true) :
    (c.handle (R.draws deps) e).done = true := by
  obtain ⟨answers, hsound⟩ := h.sound
  obtain ⟨-, timers, drops, hsame⟩ := StunClient.event_done hsound hdone he
  rw [hsame]
  exact hdone

theorem datagram_synced (h : R.Synced deps) (hqueue : R.queue = []) (payload : List U8) :
    (R.onStunDatagram deps io payload).Synced deps := by
  unfold onStunDatagram
  cases hc : R.client with
  | none =>
    obtain ⟨v, hshows, hqueued⟩ := h.view
    exact ⟨⟨v, ⟨hshows.timers, hshows.stun⟩, hqueued.same rfl rfl⟩,
      h.loop.same rfl rfl (fun _ => rfl) rfl rfl, h.told, h.ended⟩
  | some c =>
    have hbegan := (h.loop.client c hc).1
    obtain ⟨stale, -, rfl⟩ := client_some hc
    exact call_synced h hqueue hc (e := .datagram payload io.clock) trivial (fun _ _ => Iff.rfl)
      (handle_done hbegan (e := .datagram payload io.clock) trivial)

theorem Synced.others (h : R.Synced deps) {timers : TimerSet Bytes} (hidle : Idle timers)
    (howned : ∀ t, ¬Foreign t.name → (t ∈ timers.timers ↔ t ∈ R.timers.timers)) :
    Synced deps { R with timers := timers } := by
  obtain ⟨v, hshows, hqueued⟩ := h.view
  have hlobby : ∀ t : Timer Bytes, ownsTimer t.name = true →
    (t ∈ timers.timers ↔ t ∈ R.timers.timers) := by
    intro t ht
    exact howned t fun hforeign => by simp [hforeign.1] at ht
  refine ⟨⟨v, ⟨fun n hn => (hshows.timers n hn).trans (exists_congr fun t => ?_), hshows.stun⟩,
    hqueued.same rfl rfl⟩,
    h.loop.others hidle (fun t ho => howned t fun hforeign => hforeign.2 ho) ?_, h.told, h.ended⟩
  · refine and_congr_left fun hname => (hlobby t ?_).symm
    rw [hname]
    exact (timerOf_name hn).1
  · exact fun t ht hname => h.loop.known t ((hlobby t hname).mp ht) hname

theorem lobbyTimer_synced (h : R.Synced deps) (hqueue : R.queue = []) {t : Timer Bytes}
    (ht : t ∈ R.timers.timers) {n : TimerName} (hn : Lobby.ownsTimer n = true)
    (hname : nameOf n = t.name) :
    Synced deps (enter io { R with timers := R.timers.erase t.id } (.timer n)) := by
  obtain ⟨v, hshows, hof, hqueued⟩ := h.quiet hqueue
  have hnot : ¬Owned t.name := hname ▸ nameOf_foreign hn
  have hmem : ∀ u, u ∈ (R.timers.erase t.id).timers ↔ u ∈ R.timers.timers ∧ u.name ≠ t.name := by
    intro u
    rw [mem_erase]
    refine and_congr_right fun hu => not_congr ⟨fun hid => ?_, fun heq => ?_⟩
    · rw [id_unique h.loop.idle.wellFormed hu ht hid]
    · rw [name_unique h.loop.idle hu ht heq]
  have hloop := h.loop.others (idle_erase h.loop.idle ht)
    (fun u ho => (hmem u).trans (and_iff_left fun heq => hnot (heq ▸ ho)))
      (fun u hu => h.loop.known u ((hmem u).mp hu).1)
  refine ⟨⟨v.before (.timer n), ⟨fun m hm => ?_, hshows.stun⟩,
    Queued.entered (w := v) hqueued.lobby ?_ hof ?_ hqueued.usual ?_⟩,
    hloop.same rfl rfl (fun _ => rfl) rfl rfl, h.told, nofun⟩
  · show m ∈ v.timers.filter (· ≠ n) ↔ ∃ u ∈ (R.timers.erase t.id).timers, u.name = nameOf m
    simp only [List.mem_filter, hshows.timers m hm, decide_eq_true_eq, hmem]
    constructor
    · rintro ⟨⟨u, hu, hum⟩, hne⟩
      refine ⟨u, ⟨hu, fun heq => hne ?_⟩, hum⟩
      exact nameOf_injective hm hn (hum.symm.trans (heq.trans hname.symm))
    · rintro ⟨u, ⟨hu, hother⟩, hum⟩
      exact ⟨⟨u, hu, hum⟩, fun heq => hother (hum.trans (heq ▸ hname))⟩
  · show R.queue.foldlM View.act _ = _
    rw [hqueue]
    rfl
  · show R.queue.countP isStart + 0 ≤ 1
    rw [hqueue]
    exact Nat.zero_le 1
  · exact hqueued.balanced.consumed (.timer n)

theorem expired_synced (h : R.Synced deps) (hqueue : R.queue = []) {t : Timer Bytes}
    (ht : t ∈ R.timers.timers) (honce : t.repeating = false) :
    (R.input deps io (.expired t)).Synced deps := by
  have henter : R.timers.enter io.clock t = R.timers.erase t.id := enter_once io.clock honce
  have hidle := idle_erase h.loop.idle ht
  unfold input onTimer
  dsimp only
  split_ifs with hlobby hstun
  · obtain ⟨n, hn, hname⟩ := h.loop.known t ht hlobby
    have hknown : timerOf t.name = some n := hname ▸ (timerOf_name hn).2
    rw [hknown, henter]
    exact lobbyTimer_synced h hqueue ht hn hname
  · have howned := StunClient.owned_of_ownsTimer hstun
    cases hc : R.client with
    | none => exact absurd howned ((h.loop.stray (Option.map_eq_none_iff.mp hc)).2 t ht)
    | some c =>
      have hbegan := (h.loop.client c hc).1
      obtain ⟨stale, hstale, rfl⟩ := client_some hc
      have hpossible :
        Client.Possible { stale with timers := R.timers } (.expired t io.clock) := ⟨ht, howned⟩
      rw [client_of_stun (R := { R with timers := R.timers.enter io.clock t }) hstale]
      apply call_synced h hqueue hc hpossible _ (handle_done hbegan hpossible)
      show SameForeign R.timers (R.timers.enter io.clock t)
      rw [henter]
      exact h.loop.erased ht howned
  · -- a timer of another party, or one whose index has more digits than the client writes
    have hstray : Synced deps { R with timers := R.timers.enter io.clock t } := by
      rw [henter]
      by_cases howned : Owned t.name
      · cases hc : R.client with
        | none => exact absurd howned ((h.loop.stray (Option.map_eq_none_iff.mp hc)).2 t ht)
        | some c =>
          obtain ⟨stale, hstale, rfl⟩ := client_some hc
          have hpossible :
            Client.Possible { stale with timers := R.timers } (.expired t io.clock) := ⟨ht, howned⟩
          have hforeign : SameForeign R.timers (R.timers.enter io.clock t) := by
            rw [henter]
            exact h.loop.erased ht howned
          obtain ⟨hloop, -⟩ := h.loop.call hc hpossible hforeign
          have hsame :
            Client.handle (R.draws deps) { stale with timers := R.timers } (.expired t io.clock) =
              { stale with timers := R.timers.erase t.id } := by
            rw [← henter]
            exact StunClient.onTimer_stray (Bool.eq_false_iff.mpr hstun)
          rw [hsame] at hloop
          rw [henter] at hforeign
          have hclient : client { R with timers := R.timers.erase t.id } =
            some { stale with timers := R.timers.erase t.id } :=
            client_of_stun hstale
          obtain ⟨v, hshows, hqueued⟩ := h.view
          exact ⟨⟨v, hshows.same hforeign Iff.rfl, hqueued.same rfl rfl⟩,
            hloop.same rfl hclient (fun hnone => absurd (hstale.symm.trans hnone) nofun) rfl rfl,
            h.told, h.ended⟩
      · refine h.others hidle fun u hu => ?_
        rw [mem_erase]
        refine and_iff_left_of_imp fun hmem hid => hu ?_
        rw [id_unique h.loop.idle.wellFormed hmem ht hid]
        exact ⟨Bool.eq_false_iff.mpr hlobby, howned⟩
    split
    · exact hstray
    · exact hstray

theorem input_synced (h : R.Synced deps) (hrunning : R.running = false) {i : Input}
    (hpossible : R.Possible i) :
    (R.input deps io i).Synced deps := by
  have hqueue := h.ended hrunning
  cases i with
  | start => exact h.tells (fun _ => rfl) rfl rfl
  | command command => exact h.tells (fun _ => rfl) rfl rfl
  | response response => exact response_synced h hqueue hpossible
  | datagram payload => exact datagram_synced h hqueue payload
  | expired t => exact expired_synced h hqueue hpossible.1 hpossible.2
  | others timers => exact h.others hpossible.1 hpossible.2
  | tunnel =>
    obtain ⟨v, hshows, hqueued⟩ := h.view
    exact ⟨⟨v, ⟨hshows.timers, hshows.stun⟩, hqueued.same rfl rfl⟩,
      h.loop.same rfl rfl (fun _ => rfl) rfl rfl, h.told, h.ended⟩
  | flush =>
    obtain ⟨v, hshows, hqueued⟩ := h.view
    exact ⟨⟨v, ⟨hshows.timers, hshows.stun⟩, hqueued.same rfl (List.append_nil _)⟩,
      h.loop.same rfl rfl (fun _ => rfl) rfl rfl,
      h.told, nofun⟩
  | shutdown => exact h.tells (fun _ => rfl) rfl rfl

/-! ## Runs -/

theorem reachable_synced (h : Reachable deps R) : R.Synced deps := by
  induction h with
  | made name timers hidle hforeign =>
    have hnot : ∀ n, Lobby.ownsTimer n = true → ¬Holds (made name timers) n := by
      rintro n hn ⟨t, ht, hname⟩
      have hlobby := (hforeign t ht).1
      rw [hname, (timerOf_name hn).1] at hlobby
      cases hlobby
    refine ⟨⟨⟨[], false⟩,
      ⟨fun n hn => ⟨nofun, fun hheld => absurd hheld (hnot n hn)⟩, nofun, nofun⟩, ?_⟩,
      ⟨hidle, nofun, fun _ => ⟨rfl, fun t ht => (hforeign t ht).2⟩, ?_, rfl⟩, nofun, fun _ => rfl⟩
    · exact ⟨Lobby.create_invariant name, ⟨_, rfl, fun _ => Iff.rfl, nofun, nofun⟩,
        Nat.zero_le 1, nofun, rfl⟩
    · intro t ht hname
      rw [(hforeign t ht).1] at hname
      cases hname
  | step _ hstep ih =>
    cases hstep with
    | input io i hrunning hpossible => exact input_synced ih hrunning hpossible
    | turn io hrunning => exact turn_synced ih hrunning

theorem reachable_ends (h : Reachable deps R) : R.Ends := by
  induction h with
  | made name timers _ _ => exact made_ends name timers
  | @step R _ hreach hstep ih =>
    have hsynced := reachable_synced hreach
    cases hstep with
    | input io i hrunning hpossible =>
      refine input_ends ih hsynced.loop ?_ hpossible
      intro c hc hreported
      obtain ⟨stale, hstale, rfl⟩ := client_some hc
      exact (hsynced.told stale hstale).symm.trans hreported
    | turn io hrunning => exact turn_ends ih

/-- What holds of the runner between any two rounds of its loop. -/
structure InStep (deps : RunnerDeps) (R : ControlRunner) : Prop where
  /-- no timer was armed twice -/
  accepted : R.rejected = []
  /-- with no action waiting, the timers of the lobby are those that the lobby takes to be armed -/
  timers : R.queue = [] → ∀ name, ownsTimer name = true →
    (R.timers.contains name = true ↔ ∃ n ∈ R.lobby.armed, nameOf n = name)
  stage : R.queue = [] → (R.lobby.stage = .stun ↔ ∃ c, R.stun = some c ∧ c.phase = .running)
  pending : R.queue = [] → R.inFlight.map (·.op) = R.lobby.underWay.toList
  /-- a response that can come is one to the operation that the lobby waits for -/
  answers : R.running = false → ∀ response, R.Possible (.response response) →
    R.lobby.underWay = some response.op
  client : ∀ c, R.client = some c → R.Began deps c
  reported : ∀ c, R.stun = some c → R.stunReported = c.done
  /-- the lobby was told the end of the client that there is, once it has ended -/
  told : ∀ c, R.stun = some c → R.endsTold R.queries = if c.done then [endOf c] else []
  /-- and of no client that was ever made more than once -/
  once : ∀ n, (R.endsTold n).length ≤ 1
  /-- a timer of a query is that of a server that the client waits for -/
  query : ∀ t ∈ R.timers.timers, ∀ i, OwnedAt i t.name → ∃ c k, R.client = some c ∧
    (c.slots k).active = true ∧
    (c.slots k).serverIndex = i

theorem Synced.stage (h : R.Synced deps) (hqueue : R.queue = []) :
    R.lobby.stage = .stun ↔ ∃ c, R.stun = some c ∧ c.phase = .running := by
  obtain ⟨v, hshows, hof, -⟩ := h.quiet hqueue
  rw [← hof.stun, hshows.stun]
  constructor
  · rintro ⟨hsome, hreported⟩
    obtain ⟨c, hc⟩ := Option.isSome_iff_exists.mp hsome
    have hdone : c.done = false := (h.told c hc).symm.trans hreported
    obtain ⟨hbegan, hphase⟩ := h.loop.client _ (client_of_stun hc)
    obtain ⟨answers, hsound⟩ := hbegan.sound
    exact ⟨c, hc, (hsound.stage.done_iff.mp hdone).resolve_left hphase⟩
  · rintro ⟨c, hc, hphase⟩
    refine ⟨hc ▸ rfl, ?_⟩
    rw [h.told c hc]
    unfold Client.done
    rw [hphase]
    rfl

theorem Synced.timers (h : R.Synced deps) (hqueue : R.queue = []) {name : Bytes}
    (hname : ownsTimer name = true) :
    R.timers.contains name = true ↔ ∃ n ∈ R.lobby.armed, nameOf n = name := by
  obtain ⟨v, hshows, hof, hqueued⟩ := h.quiet hqueue
  rw [contains_idle h.loop.idle]
  constructor
  · rintro ⟨t, ht, rfl⟩
    obtain ⟨n, hn, heq⟩ := h.loop.known t ht hname
    exact ⟨n, (hof.timers n).mp ((hshows.timers n hn).mpr ⟨t, ht, heq.symm⟩), heq⟩
  · rintro ⟨n, hn, rfl⟩
    have hlobby : Lobby.ownsTimer n = true := Lobby.armed_owned hqueued.lobby n hn
    exact (hshows.timers n hlobby).mp ((hof.timers n).mpr hn)

/-- Over every order of commands, responses, datagrams and timers, with requests that find the queue
full and sessions that do not open, no action of the lobby is refused, and whenever none waits the
timers, the query and the request of the runner are those of the lobby. -/
theorem runner_in_step (h : Reachable deps R) : InStep deps R := by
  have hsynced := reachable_synced h
  constructor
  case accepted => exact hsynced.loop.accepted
  case timers => exact fun hqueue name hname => hsynced.timers hqueue hname
  case stage => exact hsynced.stage
  case pending => exact hsynced.pending
  case answers =>
    exact fun hrunning response hpossible => (hsynced.answers (hsynced.ended hrunning) hpossible).1
  case client => exact fun c hc => (hsynced.loop.client c hc).1
  case reported => exact hsynced.told
  case told =>
    intro c hc
    rw [← hsynced.told c hc]
    exact (reachable_ends h).current c hc
  case once => exact (reachable_ends h).once
  case query =>
    intro t ht i hi
    cases hc : R.client with
    | none => exact absurd ⟨i, hi⟩ ((hsynced.loop.stray (Option.map_eq_none_iff.mp hc)).2 t ht)
    | some c =>
      obtain ⟨answers, hsound⟩ := (hsynced.loop.client c hc).1.sound
      have htimers : c.timers = R.timers := by
        obtain ⟨stale, -, rfl⟩ := client_some hc
        rfl
      obtain ⟨k, hk, hindex⟩ := hsound.safe.owned t (htimers ▸ ht) i hi
      exact ⟨c, k, rfl, hk, hindex⟩

/-- The loop of `run` goes on for so many rounds, or to its end. -/
def drained (deps : RunnerDeps) (io : RunnerIo) : ℕ → ControlRunner → ControlRunner
  | 0, R => R
  | rounds + 1, R => if R.running then drained deps io rounds (R.turn deps io) else R

theorem drained_reachable (rounds : ℕ) (h : Reachable deps R) :
    Reachable deps (drained deps io rounds R) := by
  induction rounds generalizing R with
  | zero => exact h
  | succ rounds ih =>
    unfold drained
    split_ifs with hrunning
    · exact ih (h.step (.turn io hrunning))
    · exact h

def sampleDeps : RunnerDeps where
  hostHeader := Lobby.ascii "control:8080"
  stunServers := StunClient.sampleServers
  random _ := StunClient.sampleRandom

def sampleIo : RunnerIo := ⟨Lobby.hostIo, [], true, true, []⟩

def issuedBody : Bytes :=
  Lobby.ascii "\x7b\"ok\":true,\"room_id\":\"AAAAAA\",\"peer_id\":1,\"peer_token\":\"" ++
    List.replicate 32 0x62 ++
    Lobby.ascii "\",\"virtual_ip\":\"10.10.0.1\",\"expires_in_s\":3600\x7d"

def issuedBytes : Bytes :=
  Lobby.ascii "HTTP/1.1 200 OK\r\nContent-Length: " ++ Lobby.decimal issuedBody.length ++
    Lobby.ascii "\r\n\r\n" ++ issuedBody

def issuedResponse : ControlResponse :=
  ⟨.createRoom, { status := .complete, response := issuedBytes }, 0⟩

def hosting : ControlRunner :=
  drained sampleDeps sampleIo 12
    ((made [0x61] empty).input sampleDeps sampleIo (.command { kind := .host }))

def issued : ControlRunner :=
  drained sampleDeps sampleIo 30 (hosting.input sampleDeps sampleIo (.response issuedResponse))

/-- A host whose room was issued asks both servers, and its timers stand beside those of its query.
-/
theorem issued_in_step : issued.running = false ∧ issued.lobby.stage = .stun ∧
    issued.timers.timers.length = 5 ∧
    InStep sampleDeps issued := by
  have hmade : Reachable sampleDeps (made [0x61] empty) := .made _ _ idle_empty nofun
  have hhosting : Reachable sampleDeps hosting :=
    drained_reachable 12 (hmade.step (.input sampleIo _ rfl trivial))
  have hidle : hosting.running = false := by decide +kernel
  have hpossible : hosting.Possible (.response issuedResponse) := by
    show ∃ q ∈ hosting.inFlight, q.op = .createRoom ∧ q.selfPeerId = 0
    decide +kernel
  have hissued : Reachable sampleDeps issued :=
    drained_reachable 30 (hhosting.step (.input sampleIo _ hidle hpossible))
  have hstate : issued.running = false ∧ issued.lobby.stage = .stun ∧
    issued.timers.timers.length = 5 := by decide +kernel
  exact ⟨hstate.1, hstate.2.1, hstate.2.2, runner_in_step hissued⟩

end Sangtachi.ControlRunner
