import Sangtachi.Runner.Query

/-! # The end of a query is told once

The lobby learns that a client is done from `checkStunDone` alone, which every call of the client
runs. What is counted here are the events that the lobby was handed, client by client. -/
namespace Sangtachi.ControlRunner

open Sangtachi.BigEndian Sangtachi.Stun Sangtachi.Timers Sangtachi.Runner
open Sangtachi.Lobby (Bytes LobbyAction LobbyEvent)
open Sangtachi.StunClient (Client Owned)

variable {deps : RunnerDeps} {io : RunnerIo} {R R' : ControlRunner}

def isStunDone : LobbyEvent → Bool
  | .stunDone _ _ => true
  | _ => false

def endOf (c : Client) : LobbyEvent :=
  .stunDone (c.phase = StunClient.StunPhase.succeeded) (c.mappings.map toMapping)

/-- The ends that the lobby was told of while the `n`-th client was the last one made. -/
def endsTold (R : ControlRunner) (n : ℕ) : List LobbyEvent :=
  (R.told.filter fun entry => entry.1 = n ∧ isStunDone entry.2).map (·.2)

/-- A client that goes before its end was told is never told of, since the next one has another
number. -/
structure Ends (R : ControlRunner) : Prop where
  latest : ∀ n, R.queries < n → R.endsTold n = []
  once : ∀ n, (R.endsTold n).length ≤ 1
  current : ∀ c, R.stun = some c → R.endsTold R.queries = if R.stunReported then [endOf c] else []

theorem endsTold_congr (htold : R'.told = R.told) (n : ℕ) : R'.endsTold n = R.endsTold n := by
  unfold endsTold
  rw [htold]

theorem endsTold_enter (io : RunnerIo) (R : ControlRunner) (e : LobbyEvent) (n : ℕ) :
    (R.enter io e).endsTold n = R.endsTold n ++ if R.queries = n ∧ isStunDone e then
    [e] else [] := by
  show ((R.told ++ [(R.queries, e)]).filter _).map _ = _
  rw [List.filter_append, List.map_append, List.filter_singleton]
  by_cases htells : R.queries = n ∧ isStunDone e
  · simp [endsTold, htells]
  · simp only [endsTold, htells]
    simp

theorem Ends.same (h : R.Ends) (htold : R'.told = R.told) (hqueries : R'.queries = R.queries)
    (hstun : ∀ c', R'.stun = some c' → ∃ c, R.stun = some c ∧ R'.stunReported = R.stunReported ∧
      (R.stunReported = true → endOf c' = endOf c)) : R'.Ends where
  latest n hn := (endsTold_congr htold n).trans (h.latest n (hqueries ▸ hn))
  once n := (endsTold_congr htold n).symm ▸ h.once n
  current c' hc' := by
    obtain ⟨c, hc, hreported, hend⟩ := hstun c' hc'
    rw [endsTold_congr htold, hqueries, hreported, h.current c hc]
    split_ifs with htold
    · rw [hend htold]
    · rfl

theorem Ends.entered (h : R.Ends) {e : LobbyEvent} (he : isStunDone e = false) :
    (R.enter io e).Ends := by
  have hsame : ∀ n, (R.enter io e).endsTold n = R.endsTold n := by
    intro n
    rw [endsTold_enter, he]
    simp
  constructor
  case latest => exact fun n hn => (hsame n).trans (h.latest n hn)
  case once => exact fun n => (hsame n).symm ▸ h.once n
  case current => exact fun c hc => (hsame _).trans (h.current c hc)

theorem checkStunDone_ends (h : R.Ends) : (R.checkStunDone io).Ends := by
  unfold checkStunDone
  cases hstun : R.stun with
  | none => exact h
  | some c =>
    dsimp only
    split_ifs with hquiet
    · exact h
    · obtain ⟨hreported, -⟩ : R.stunReported = false ∧ c.done = true := by simpa using hquiet
      have hnone : R.endsTold R.queries = [] := by
        rw [h.current c hstun, hreported]
        rfl
      have htold := endsTold_enter io { R with stunReported := true } (endOf c)
      constructor
      case latest =>
        intro n hn
        refine (htold n).trans ?_
        rw [if_neg fun heq => hn.ne heq.1, List.append_nil]
        exact h.latest n hn
      case once =>
        intro n
        refine (congrArg List.length (htold n)).trans_le ?_
        split_ifs with hn
        · obtain rfl : R.queries = n := hn.1
          rw [show endsTold { R with stunReported := true } R.queries = [] from hnone]
          exact le_rfl
        · rw [List.append_nil]
          exact h.once n
      case current =>
        intro c' hc'
        obtain rfl : c = c' := Option.some.inj hc'
        refine (htold R.queries).trans ?_
        rw [show endsTold { R with stunReported := true } R.queries = [] from hnone,
          if_pos ⟨rfl, rfl⟩]
        rfl

theorem dropStun_ends (h : R.Ends) : (R.dropStun deps).Ends := by
  unfold dropStun
  cases hstun : R.stun with
  | none => exact h
  | some c => exact h.same rfl rfl nofun

theorem startStun_ends (h : R.Ends) : (R.startStun deps io).Ends := by
  have hdropped : (R.dropStun deps).Ends := dropStun_ends h
  have hnew := hdropped.latest _ (Nat.lt_succ_self _)
  unfold startStun
  apply checkStunDone_ends
  constructor
  case latest => exact fun n hn => hdropped.latest n ((Nat.lt_succ_self _).trans hn)
  case once => exact hdropped.once
  case current => exact fun c hc => hnew

theorem Ends.quiet (h : R.Ends) (htold : R'.told = R.told) (hqueries : R'.queries = R.queries)
    (hstun : R'.stun = R.stun) (hreported : R'.stunReported = R.stunReported) : R'.Ends :=
  h.same htold hqueries fun c hc => ⟨c, hstun ▸ hc, hreported, fun _ => rfl⟩

theorem submit_ends (h : R.Ends) (request : Lobby.SubmitRequest) :
    (R.submit deps io request).Ends := by
  unfold submit
  split
  · split_ifs
    · exact h.quiet rfl rfl rfl rfl
    · exact h.entered rfl
  · exact h.entered rfl

theorem armTimer_ends (h : R.Ends) (name : Bytes) (delayMs : ℕ) :
    (R.armTimer io name delayMs).Ends := by
  unfold armTimer
  split
  · exact h.quiet rfl rfl rfl rfl
  · exact h.quiet rfl rfl rfl rfl

theorem openSession_ends (h : R.Ends) (peerId : U32) (role : Lobby.LobbyRole) (setupBaseMs : ℕ) :
    (R.openSession io peerId role setupBaseMs).Ends := by
  unfold openSession
  dsimp only
  split_ifs
  · exact h.quiet rfl rfl rfl rfl
  · have hmoved : (R.pushMoved io).Ends := h.quiet rfl rfl rfl rfl
    exact hmoved.entered rfl

theorem execute_ends (h : R.Ends) (a : LobbyAction) : (R.execute deps io a).Ends := by
  cases a with
  | submitRequest request => exact submit_ends h request
  | startStun => exact startStun_ends h
  | cancelStun => exact dropStun_ends h
  | armTimer name delayMs => exact armTimer_ends h (nameOf name) delayMs
  | openSession request name role setupBaseMs =>
    exact openSession_ends h request.peerId role setupBaseMs
  | _ => exact h.quiet rfl rfl rfl rfl

theorem record_same (R : ControlRunner) (queued : QueuedEvent) : ∃ tracks lastAttempt records,
    R.record queued =
      { R with tracks := tracks, lastAttempt := lastAttempt, records := records } := by
  unfold record
  dsimp only
  split
  · exact ⟨_, _, _, rfl⟩
  · split_ifs
    all_goals exact ⟨_, _, _, rfl⟩

theorem turn_ends (h : R.Ends) : (R.turn deps io).Ends := by
  unfold turn
  split
  case h_1 action rest hqueue =>
    have htaken : Ends { R with queue := rest, carried := R.carried ++ [action] } :=
      h.quiet rfl rfl rfl rfl
    exact execute_ends htaken action
  case h_2 hqueue =>
    split
    case h_1 queued rest hevents =>
      obtain ⟨tracks, lastAttempt, records, hrecord⟩ := record_same { R with events := rest } queued
      rw [hrecord]
      apply Ends.entered _ rfl
      exact h.quiet rfl rfl rfl rfl
    case h_2 => exact h.quiet rfl rfl rfl rfl

/-! ## Calls of the client -/

/-- A client that is done has ended as it did, whatever it is called with. -/
theorem call_ends (h : R.Ends) (hloop : R.Looped deps) {c : Client} (hc : R.client = some c)
    (hdone : R.stunReported = true → c.done = true) {e : StunClient.Event} (he : c.Possible e) :
    ((R.withClient (c.handle (R.draws deps) e)).checkStunDone io).Ends := by
  obtain ⟨stale, hstale, hsame⟩ := client_some hc
  apply checkStunDone_ends
  refine h.same rfl rfl ?_
  rintro _ ⟨⟩
  refine ⟨stale, hstale, rfl, fun hreported => ?_⟩
  obtain ⟨answers, hsound⟩ := (hloop.client c hc).1.sound
  obtain ⟨-, timers, drops, hkept⟩ := StunClient.event_done hsound (hdone hreported) he
  rw [hkept, hsame]
  rfl

theorem datagram_ends (h : R.Ends) (hloop : R.Looped deps)
    (hdone : ∀ c, R.client = some c → R.stunReported = true → c.done = true) (payload : List U8) :
    (R.onStunDatagram deps io payload).Ends := by
  unfold onStunDatagram
  cases hc : R.client with
  | none => exact h.quiet rfl rfl rfl rfl
  | some c => exact call_ends h hloop hc (hdone c hc) (e := .datagram payload io.clock) trivial

theorem expired_ends (h : R.Ends) (hloop : R.Looped deps)
    (hdone : ∀ c, R.client = some c → R.stunReported = true → c.done = true) {t : Timer Bytes}
    (ht : t ∈ R.timers.timers) : (R.input deps io (.expired t)).Ends := by
  have hentered : Ends { R with timers := R.timers.enter io.clock t } := h.quiet rfl rfl rfl rfl
  unfold input onTimer
  dsimp only
  split_ifs with hlobby hstun
  · split
    · exact hentered.entered rfl
    · exact hentered.quiet rfl rfl rfl rfl
  · cases hc : R.client with
    | none =>
      have hnone : R.stun = none := Option.map_eq_none_iff.mp hc
      rw [show client { R with timers := R.timers.enter io.clock t } = none from congrArg _ hnone]
      exact hentered
    | some c =>
      have hcalled := hdone c hc
      obtain ⟨stale, hstale, rfl⟩ := client_some hc
      have hpossible : Client.Possible { stale with timers := R.timers } (.expired t io.clock) :=
        ⟨ht, StunClient.owned_of_ownsTimer hstun⟩
      rw [client_of_stun (R := { R with timers := R.timers.enter io.clock t }) hstale]
      exact call_ends h hloop hc hcalled hpossible
  · split
    · exact hentered
    · exact hentered

theorem input_ends (h : R.Ends) (hloop : R.Looped deps)
    (hdone : ∀ c, R.client = some c → R.stunReported = true → c.done = true) {i : Input}
    (hpossible : R.Possible i) :
    (R.input deps io i).Ends := by
  cases i with
  | start => exact h.entered rfl
  | command command => exact h.entered rfl
  | response response =>
    apply Ends.entered _ rfl
    exact h.quiet rfl rfl rfl rfl
  | datagram payload => exact datagram_ends h hloop hdone payload
  | expired t => exact expired_ends h hloop hdone hpossible.1
  | others timers => exact h.quiet rfl rfl rfl rfl
  | tunnel => exact h.quiet rfl rfl rfl rfl
  | flush => exact h.quiet rfl rfl rfl rfl
  | shutdown => exact h.entered rfl

theorem made_ends (name : Bytes) (timers : TimerSet Bytes) : (made name timers).Ends :=
  ⟨fun _ _ => rfl, fun _ => Nat.zero_le 1, nofun⟩

end Sangtachi.ControlRunner
