import Sangtachi.Lobby.Moves

/-! # What starts a query

No event but the reply that issues a room starts a STUN query, it starts one at most, and every
timer that is armed is one of the lobby. -/
namespace Sangtachi.Lobby

open Sangtachi.BigEndian Sangtachi.Packet Sangtachi.Peer Sangtachi.Tunnel

variable {L L' : Lobby} {io : LobbyIo} {n : ℕ}

def isStart : LobbyAction → Bool
  | .startStun => true
  | _ => false

/-- An action that starts no query, and touches no timer of another party. -/
def isUsual : LobbyAction → Bool
  | .startStun => false
  | .armTimer name _ | .cancelTimer name => ownsTimer name
  | _ => true

/-- The actions so far start `n` queries at most. -/
structure Tame (n : ℕ) (L : Lobby) : Prop where
  starts : L.out.actions.countP isStart ≤ n
  own : ∀ a ∈ L.out.actions, isStart a = false → isUsual a = true
  armed : ∀ name ∈ L.armed, ownsTimer name = true

theorem Tame.same (h : Tame n L) (hout : L'.out.actions = L.out.actions)
    (harmed : L'.armed = L.armed) : Tame n L' :=
  ⟨hout ▸ h.starts, hout ▸ h.own, harmed ▸ h.armed⟩

theorem Tame.armedOnly (h : Tame n L) {armed : List TimerName}
    (harmed : ∀ name ∈ armed, ownsTimer name = true) :
    Tame n { L with armed := armed } := ⟨h.starts, h.own, harmed⟩

theorem Tame.push (h : Tame n L) {a : LobbyAction} (ha : isUsual a = true) : Tame n (L.push a) := by
  have hstart : isStart a = false := by
    cases a with
    | startStun => exact absurd ha (by decide)
    | _ => rfl
  constructor
  · show (L.out.actions ++ [a]).countP isStart ≤ n
    rw [List.countP_append, List.countP_singleton, hstart]
    exact h.starts
  · intro b hb hnot
    rcases List.mem_append.mp hb with hold | hnew
    · exact h.own b hold hnot
    · exact List.mem_singleton.mp hnew ▸ ha
  · exact h.armed

theorem Tame.start (h : Tame n L) : Tame (n + 1) (L.push .startStun) := by
  constructor
  · show (L.out.actions ++ [LobbyAction.startStun]).countP isStart ≤ n + 1
    rw [List.countP_append]
    exact Nat.add_le_add_right h.starts 1
  · intro b hb hnot
    rcases List.mem_append.mp hb with hold | hnew
    · exact h.own b hold hnot
    · rw [List.mem_singleton.mp hnew] at hnot
      exact absurd hnot (by decide)
  · exact h.armed

theorem Tame.when {M : Lobby} {c : Prop} [Decidable c] (h : Tame n L) (k : Tame n M) :
    Tame n (if c then L else M) := by
  split_ifs
  · exact h
  · exact k

theorem Tame.guide (h : Tame n L) (lines : List Bytes) :
    Tame n (L.pushAll (lines.map .guideLine)) := by
  induction lines generalizing L with
  | nil => exact h.same (List.append_nil _) rfl
  | cons line lines ih =>
    exact (ih (h.push (a := .guideLine line) rfl)).same
      (List.append_assoc L.out.actions [.guideLine line] _).symm rfl

/-! ## Timers and the end of an attempt -/

theorem Tame.arm (h : Tame n L) {name : TimerName} (hname : ownsTimer name = true)
    (delayMs : Millis) :
    Tame n (L.arm name delayMs) := by
  unfold Lobby.arm
  have hgrown : Tame n { L with armed := L.armed ++ [name] } := by
    apply h.armedOnly
    intro m hm
    rcases List.mem_append.mp hm with hold | hnew
    · exact h.armed m hold
    · exact List.mem_singleton.mp hnew ▸ hname
  have hrearmed : Tame n (if name ∈ L.armed then L.push (.cancelTimer name) else
    { L with armed := L.armed ++ [name] }) :=
    Tame.when (h.push hname) hgrown
  exact hrearmed.push hname

theorem Tame.forgetArmed (h : Tame n L) (name : TimerName) : Tame n (L.forgetArmed name) :=
  h.armedOnly fun m hm => h.armed m (List.mem_filter.mp hm).1

theorem Tame.disarm (h : Tame n L) (name : TimerName) : Tame n (L.disarm name) := by
  unfold Lobby.disarm
  by_cases harmed : name ∈ L.armed
  · rw [if_pos harmed]
    exact (h.forgetArmed name).push (h.armed name harmed)
  · rw [if_neg harmed]
    exact h

theorem Tame.disarmAll (h : Tame n L) : Tame n L.disarmAll := by
  have hfold : ∀ (names : List TimerName) {M : Lobby}, Tame n M →
    Tame n (names.foldl Lobby.disarm M) := by
    intro names
    induction names with
    | nil => exact id
    | cons name rest ih => exact fun hM => ih (hM.disarm name)
  exact hfold _ h

theorem Tame.recordUnfinished (h : Tame n L) (result : String) :
    Tame n (L.recordUnfinished result) := by
  unfold Lobby.recordUnfinished
  exact (h.push rfl).when ((h.push rfl).when h)

theorem Tame.endAttempt (h : Tame n L) (reason : String) (leaveRoom : Bool) :
    Tame n (L.endAttempt reason leaveRoom) := by
  have hstopped : Tame n (if L.stage = .stun then L.disarmAll.push .cancelStun else L.disarmAll) :=
    Tame.when (h.disarmAll.push rfl) h.disarmAll
  have hroom : ∀ {M : Lobby}, Tame n M →
    Tame n (if leaveRoom = true then M.cleared.push .leaveRoom else M.cleared) :=
    fun {M} hM => Tame.when (Tame.push (L := M.cleared) (hM.same rfl rfl) rfl) (hM.same rfl rfl)
  have hlogged :=
    (hroom hstopped).push (a := .logLine .info "attempt.end" [⟨"reason", ascii reason⟩]) rfl
  unfold Lobby.endAttempt
  exact (hlogged.guide _).when hlogged

/-! ## Moves -/

theorem isPlain_usual {a : LobbyAction} (h : isPlain a = true) : isUsual a = true := by
  cases a with
  | startStun => cases h
  | armTimer => cases h
  | cancelTimer => cases h
  | _ => rfl

theorem Move.tame {q : ℕ} {r o : Openings} (hmove : Move q r o L L') (h : Tame n L) :
    Tame (n + q) L' := by
  have hpushed : ∀ (M : Lobby) (a : LobbyAction), M.out = L.out → M.armed = L.armed →
    isUsual a = true → Tame n (M.push a) :=
    fun M a hout harmed ha => (h.same (congrArg _ hout) harmed).push ha
  cases hmove with
  | alike _ _ hsame => exact h.same hsame.actions hsame.armed
  | tells _ a ha => exact h.push (isPlain_usual ha)
  | arms _ name delayMs hname => exact h.arm hname delayMs
  | disarms _ name => exact h.disarm name
  | forgets _ name => exact h.forgetArmed name
  | begins => exact hpushed _ _ rfl rfl rfl
  | goes => exact h.same rfl rfl
  | queries => exact h.start
  | settles => exact hpushed _ _ rfl rfl rfl
  | meets => exact hpushed _ _ rfl rfl rfl
  | admits => exact hpushed _ _ rfl rfl rfl
  | pairs => exact h.same rfl rfl
  | ends _ reason leaveRoom => exact h.endAttempt reason leaveRoom
  | unfinished _ result reason leaveRoom =>
    exact (h.recordUnfinished result).endAttempt reason leaveRoom
  | unopened => exact h.push rfl

theorem Moves.tame {q : ℕ} {r o : Openings} (hmoves : Moves q r o L L') (h : Tame n L) :
    Tame (n + q) L' := by
  induction hmoves with
  | refl => exact h
  | tail _ hmove ih => exact Nat.add_assoc n _ _ ▸ hmove.tame (ih h)

theorem armed_owned (hinv : Invariant L) : ∀ name ∈ L.armed, ownsTimer name = true := by
  intro name hname
  have hbelongs := hinv.timers name hname
  cases name with
  | stunRetry server => exact absurd hbelongs id
  | stunDeadline server => exact absurd hbelongs id
  | other text => exact absurd hbelongs id
  | _ => rfl

def startsOf (event : LobbyEvent) : ℕ := (isReply event).toNat

theorem step_tame (hinv : Invariant L) (io : LobbyIo) (event : LobbyEvent) :
    Tame (startsOf event) (L.step io event) := by
  obtain ⟨q, hq, _, -, -, hmoves⟩ := step_moves hinv io event
  have harmed := armed_owned hinv
  have hfresh : Tame 0 { L with out := {} } := ⟨Nat.le_refl 0, nofun, harmed⟩
  have htame := hmoves.tame hfresh
  rw [Nat.zero_add] at htame
  exact ⟨htame.starts.trans hq, htame.own, htame.armed⟩

end Sangtachi.Lobby
