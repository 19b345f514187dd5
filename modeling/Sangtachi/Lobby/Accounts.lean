import Sangtachi.Lobby.Moves

/-! # The account of attempts

An attempt that begins is settled once: by a record, by the session of a player, or by the roster of
a host whose room is set up. The pairs of a host have an account of their own: each has its session,
or a record that it did not open. -/
namespace Sangtachi.Lobby

open Sangtachi.BigEndian Sangtachi.Packet Sangtachi.Peer Sangtachi.Tunnel

variable {L L' : Lobby} {io : LobbyIo} {q : ℕ} {r o : Openings} {h : List Entry} {acc : Account}

/-- The attempts of a player, those of a host, and the pairs of a host with one peer. -/
inductive Account where
  | player | host | pair (peerId : U32)
  deriving DecidableEq

namespace Account

def begins : Account → LobbyAction → Bool
  | .player, .logLine _ event fields =>
    event = "attempt.start" ∧ fields = [⟨"role", ascii LobbyRole.player.token⟩]
  | .host, .logLine _ event fields =>
    event = "attempt.start" ∧ fields = [⟨"role", ascii LobbyRole.host.token⟩]
  | _, _ => false

def records : Account → LobbyAction → Bool
  | .player, .recordAttempt role _ _ => role = .player
  | .host, .recordAttempt role peer _ => role = .host ∧ peer = none
  | .pair peerId, .recordAttempt role peer _ => role = .host ∧ peer = some peerId
  | _, _ => false

/-- The attempt is set up: a player has the session of its attempt, a host its roster. -/
def settles : Account → LobbyAction → Bool
  | .player, .openSession _ _ role _ => role = .player
  | .host, .startRoster _ => true
  | _, _ => false

def counts : Account → LobbyRole × U32 → Bool
  | .player, x => x.1 = .player
  | .host, _ => false
  | .pair peerId, x => x = (.host, peerId)

def role : Account → LobbyRole
  | .player => .player
  | .host => .host
  | .pair _ => .none

def weight (acc : Account) (a : LobbyAction) : ℤ :=
  (if acc.records a then 1 else 0) + (if acc.settles a then 1 else 0) -
    if acc.begins a then 1 else 0

def tally (acc : Account) (as : List LobbyAction) : ℤ := (as.map acc.weight).sum

/-- An attempt of the account is under way that is not set up. -/
def owed (acc : Account) (L : Lobby) : ℤ := if L.Due ∧ L.role = acc.role then 1 else 0

theorem tally_append (acc : Account) (as bs : List LobbyAction) :
    acc.tally (as ++ bs) = acc.tally as + acc.tally bs := by
  unfold tally
  rw [List.map_append, List.sum_append]

theorem tally_eq (acc : Account) (as : List LobbyAction) :
    acc.tally as = as.countP acc.records + as.countP acc.settles - as.countP acc.begins := by
  unfold tally
  induction as with
  | nil => rfl
  | cons a as ih =>
    rw [List.map_cons, List.sum_cons, ih, List.countP_cons, List.countP_cons, List.countP_cons]
    unfold weight
    push_cast
    omega

theorem tally_push (acc : Account) (L : Lobby) (a : LobbyAction) :
    acc.tally (L.push a).out.actions = acc.tally L.out.actions + acc.weight a := by
  show acc.tally (L.out.actions ++ [a]) = _
  rw [tally_append]
  unfold tally
  rw [List.map_singleton, List.sum_singleton]

end Account

/-- An action that neither begins nor settles anything. -/
def isIdle : LobbyAction → Bool
  | .logLine _ event _ => event ≠ "attempt.start"
  | .openSession _ _ _ _ | .startRoster _ | .recordAttempt _ _ _ => false
  | _ => true

theorem isPlain_idle {a : LobbyAction} (h : isPlain a = true) : isIdle a = true := by
  cases a with
  | openSession => cases h
  | startRoster => cases h
  | recordAttempt => cases h
  | logLine => exact h
  | _ => rfl

theorem isIdle_weight (acc : Account) {a : LobbyAction} (h : isIdle a = true) :
    acc.weight a = 0 := by
  cases a with
  | logLine level event fields =>
    have hevent : event ≠ "attempt.start" := of_decide_eq_true h
    cases acc <;> simp [Account.weight, Account.records, Account.settles, Account.begins, hevent]
  | openSession => cases h
  | startRoster => cases h
  | recordAttempt => cases h
  | _ => cases acc <;> rfl

/-- `L'` adds idle actions only. -/
def Idles (L L' : Lobby) : Prop :=
  ∃ as, L'.out.actions = L.out.actions ++ as ∧ ∀ a ∈ as, isIdle a = true

theorem Idles.refl (L : Lobby) : Idles L L := ⟨[], (List.append_nil _).symm, nofun⟩

theorem Idles.push {M : Lobby} {a : LobbyAction} (h : Idles L M) (ha : isIdle a = true) :
    Idles L (M.push a) := by
  obtain ⟨as, has, hidle⟩ := h
  refine ⟨as ++ [a], ?_, ?_⟩
  · show M.out.actions ++ [a] = _
    rw [has, List.append_assoc]
  · intro b hb
    rcases List.mem_append.mp hb with hold | hnew
    · exact hidle b hold
    · exact List.mem_singleton.mp hnew ▸ ha

theorem Idles.same {M N : Lobby} (h : Idles L M) (hsame : N.out.actions = M.out.actions) :
    Idles L N := by
  obtain ⟨as, has, hidle⟩ := h
  exact ⟨as, hsame.trans has, hidle⟩

theorem Idles.when {M N : Lobby} {c : Prop} [Decidable c] (h : Idles L M) (k : Idles L N) :
    Idles L (if c then M else N) := by
  split_ifs
  · exact h
  · exact k

theorem Idles.guide {M : Lobby} (h : Idles L M) (lines : List Bytes) :
    Idles L (M.pushAll (lines.map .guideLine)) := by
  induction lines generalizing M with
  | nil => exact h.same (List.append_nil _)
  | cons line lines ih =>
    exact (ih (h.push (a := .guideLine line) rfl)).same
      (List.append_assoc M.out.actions [.guideLine line] _).symm

theorem Idles.arm {M : Lobby} (h : Idles L M) (name : TimerName) (delayMs : Millis) :
    Idles L (M.arm name delayMs) := by
  unfold Lobby.arm
  have hrearmed : Idles L (if name ∈ M.armed then M.push (.cancelTimer name) else
    { M with armed := M.armed ++ [name] }) :=
    Idles.when (h.push rfl) (h.same rfl)
  exact hrearmed.push rfl

theorem Idles.disarm {M : Lobby} (h : Idles L M) (name : TimerName) : Idles L (M.disarm name) := by
  unfold Lobby.disarm
  exact Idles.when (Idles.push (M := M.forgetArmed name) (h.same rfl) rfl) h

theorem Idles.disarmAll {M : Lobby} (h : Idles L M) : Idles L M.disarmAll := by
  have hfold : ∀ (names : List TimerName) {M : Lobby}, Idles L M →
    Idles L (names.foldl Lobby.disarm M) := by
    intro names
    induction names with
    | nil => exact id
    | cons name rest ih => exact fun hM => ih (hM.disarm name)
  exact hfold _ h

theorem Idles.endAttempt {M : Lobby} (h : Idles L M) (reason : String) (leaveRoom : Bool) :
    Idles L (M.endAttempt reason leaveRoom) := by
  have hstopped : Idles L (if M.stage = .stun then M.disarmAll.push .cancelStun else M.disarmAll) :=
    Idles.when (h.disarmAll.push rfl) h.disarmAll
  have hroom : ∀ {N : Lobby}, Idles L N →
    Idles L (if leaveRoom = true then N.cleared.push .leaveRoom else N.cleared) :=
    fun {N} hN => Idles.when (Idles.push (M := N.cleared) (hN.same rfl) rfl) (hN.same rfl)
  have hevent : "attempt.end" ≠ "attempt.start" := by decide
  have hlogged := (hroom hstopped).push
    (a := .logLine .info "attempt.end" [⟨"reason", ascii reason⟩]) (decide_eq_true hevent)
  unfold Lobby.endAttempt
  exact (hlogged.guide _).when hlogged

theorem Idles.tally (h : Idles L L') (acc : Account) :
    acc.tally L'.out.actions = acc.tally L.out.actions := by
  obtain ⟨as, has, hidle⟩ := h
  have hnone : acc.tally as = 0 := by
    clear has
    induction as with
    | nil => rfl
    | cons a as ih =>
      have hcons : acc.tally (a :: as) = acc.weight a + acc.tally as := List.sum_cons
      rw [hcons, ih fun b hb => hidle b (List.mem_cons_of_mem a hb),
        isIdle_weight acc (hidle a List.mem_cons_self), add_zero]
  rw [has, Account.tally_append, hnone, add_zero]

/-! ## One account -/

namespace Account

theorem recordUnfinished_tally (acc : Account) (hstage : L.stage ≠ .lobby) (result : String) :
    acc.tally (L.recordUnfinished result).out.actions = acc.tally L.out.actions + acc.owed L := by
  unfold Lobby.recordUnfinished
  split_ifs with hplayer hhost
  · have hdue : L.Due := ⟨hstage, .inl hplayer⟩
    rw [tally_push]
    cases acc with
    | player => simp [weight, records, settles, begins, owed, role, hdue, hplayer.1]
    | host => simp [weight, records, settles, begins, owed, role, hplayer.1]
    | pair peerId => simp [weight, records, settles, begins, owed, role, hplayer.1]
  · have hdue : L.Due := ⟨hstage, .inr hhost⟩
    rw [tally_push]
    cases acc with
    | player => simp [weight, records, settles, begins, owed, role, hhost.1]
    | host => simp [weight, records, settles, begins, owed, role, hdue, hhost.1]
    | pair peerId => simp [weight, records, settles, begins, owed, role, hhost.1]
  · have hnot : ¬L.Due := fun hdue => hdue.2.elim hplayer hhost
    have hnone : acc.owed L = 0 := if_neg fun hdue => hnot hdue.1
    rw [hnone, add_zero]

theorem owed_congr (acc : Account) (hdue : L'.Due ↔ L.Due) (hrole : L'.role = L.role) :
    acc.owed L' = acc.owed L := by
  unfold owed
  exact if_congr (by rw [hdue, hrole]) rfl rfl

theorem owed_none (acc : Account) (h : ¬L.Due) : acc.owed L = 0 := if_neg fun hdue => h hdue.1

theorem owed_due (acc : Account) (h : L.Due) : acc.owed L = if L.role = acc.role then 1 else 0 :=
  if_congr (and_iff_right h) rfl rfl

end Account

theorem Move.tally (hmove : Move q r o L L') (acc : Account) :
    acc.tally L'.out.actions + acc.owed L' =
      acc.tally L.out.actions + acc.owed L + r.countP acc.counts := by
  have hquiet : ∀ {M : Lobby}, Idles L M → (M.Due ↔ L.Due) → M.role = L.role →
      acc.tally M.out.actions + acc.owed M =
        acc.tally L.out.actions + acc.owed L + ([] : Openings).countP acc.counts := by
    intro M hidles hdue hrole
    rw [hidles.tally acc, acc.owed_congr hdue hrole, List.countP_nil, Nat.cast_zero, add_zero]
  cases hmove with
  | alike _ _ hsame => exact hquiet ((Idles.refl L).same hsame.actions) hsame.due hsame.role
  | tells _ a ha => exact hquiet ((Idles.refl L).push (isPlain_idle ha)) Iff.rfl rfl
  | arms _ name delayMs =>
    obtain ⟨out, -, harm⟩ := arm_eq L name delayMs
    refine hquiet ((Idles.refl L).arm name delayMs) ?_ ?_
    · rw [harm]
      exact Iff.rfl
    · rw [harm]
  | disarms _ name =>
    exact hquiet ((Idles.refl L).disarm name) (disarm_due L name) (disarm_place L name).2
  | forgets _ name => exact hquiet ((Idles.refl L).same rfl) Iff.rfl rfl
  | begins _ role hstage hpairs hrole =>
    have hdue : Due (Lobby.log { L with role := role, stage := .issuing } .info "attempt.start"
        [⟨"role", ascii role.token⟩]) := by
      refine ⟨nofun, ?_⟩
      cases role with
      | none => exact absurd rfl hrole
      | host => exact .inr ⟨rfl, nofun⟩
      | player => exact .inl ⟨rfl, hpairs⟩
    have hweight : acc.weight (.logLine .info "attempt.start" [⟨"role", ascii role.token⟩]) +
      (if role = acc.role then 1 else 0) = 0 := by
      cases role with
      | none => exact absurd rfl hrole
      | host =>
        cases acc with
        | pair peerId => rfl
        | _ => decide
      | player =>
        cases acc with
        | pair peerId => rfl
        | _ => decide
    rw [acc.owed_due hdue, acc.owed_none fun hnot : L.Due => hnot.1 hstage, List.countP_nil]
    unfold Lobby.log
    rw [Account.tally_push]
    show acc.tally L.out.actions + acc.weight _ + (if role = acc.role then 1 else 0) = _
    omega
  | goes _ stage hlobby hsettled hlobby' hsettled' =>
    have hdue : Due { L with stage := stage } ↔ L.Due := by
      simp [Due, hlobby, hsettled, hlobby', hsettled']
    exact hquiet ((Idles.refl L).same rfl) hdue rfl
  | queries => exact hquiet ((Idles.refl L).push rfl) Iff.rfl rfl
  | settles _ own hdue hrole =>
    have hsettled : ¬Due (Lobby.push { L with stage := .settled } (.startRoster own)) :=
      not_due_host hrole rfl
    have hweight : acc.weight (.startRoster own) = if LobbyRole.host = acc.role then 1 else 0 := by
      cases acc <;> rfl
    rw [Account.tally_push, acc.owed_due hdue, acc.owed_none hsettled, hrole, hweight]
    rfl
  | meets _ pair request setupBaseMs hdue hrole =>
    have hmet :
      ¬Due ((setPair { L with stage := .settled } pair).push
        (.openSession request pair.name L.role setupBaseMs)) := by
      rintro ⟨-, ⟨-, hnone⟩ | ⟨-, hnot⟩⟩
      · exact List.append_ne_nil_of_right_ne_nil _ (List.cons_ne_nil _ _) hnone
      · exact hnot rfl
    have hweight : acc.weight (.openSession request pair.name L.role setupBaseMs) =
      if LobbyRole.player = acc.role then 1 else 0 := by
      rw [hrole]
      cases acc <;> rfl
    rw [Account.tally_push, acc.owed_due hdue, acc.owed_none hmet, hweight, hrole]
    rfl
  | admits _ pair request setupBaseMs hrole hstage =>
    have hadmitted :
      ¬Due ((L.setPair pair).push
        (.openSession request pair.name L.role setupBaseMs)) := not_due_host hrole hstage
    have hweight : acc.weight (.openSession request pair.name L.role setupBaseMs) = 0 := by
      rw [hrole]
      cases acc <;> rfl
    rw [Account.tally_push, acc.owed_none (not_due_host hrole hstage),
      acc.owed_none hadmitted, hweight]
    rfl
  | pairs _ pairs hpairs =>
    have hdue : Due { L with pairs := pairs } ↔ L.Due := by
      rcases hpairs with hhost | hsame
      · simp [Due, hhost]
      · simp [Due, hsame]
    exact hquiet ((Idles.refl L).same rfl) hdue rfl
  | ends _ reason leaveRoom hnot =>
    rw [((Idles.refl L).endAttempt reason leaveRoom).tally acc, acc.owed_none hnot,
      acc.owed_none (endAttempt_due L reason leaveRoom), List.countP_nil]
    omega
  | unfinished _ result reason leaveRoom hstage =>
    rw [((Idles.refl _).endAttempt reason leaveRoom).tally acc, acc.recordUnfinished_tally hstage,
      acc.owed_none (endAttempt_due _ reason leaveRoom), List.countP_nil]
    rfl
  | unopened _ peerId result hrole =>
    have hweight : acc.weight (.recordAttempt L.role (some peerId) result) =
      ([(L.role, peerId)] : Openings).countP acc.counts := by
      cases hL : L.role with
      | none => exact absurd hL hrole
      | host =>
        cases acc with
        | pair p =>
          simp [Account.weight, Account.records, Account.settles, Account.begins, Account.counts,
            List.countP_singleton]
        | _ => rfl
      | player => cases acc <;> rfl
    rw [Account.tally_push, hweight]
    show _ + _ + acc.owed L = _
    omega

theorem Moves.tally (hmoves : Moves q r o L L') (acc : Account) :
    acc.tally L'.out.actions + acc.owed L' =
      acc.tally L.out.actions + acc.owed L + r.countP acc.counts := by
  induction hmoves with
  | refl => exact (add_zero _).symm
  | tail _ hmove ih =>
    rw [hmove.tally acc, ih, List.countP_append]
    push_cast
    omega

/-! ## Runs -/

def said (h : List Entry) : List LobbyAction := h.flatMap (·.after.actions)

/-- The sessions of active pairs that did not open. -/
def notOpened (h : List Entry) : Openings := h.flatMap fun e => e.before.unopened e.event

theorem step_tally (hinv : Invariant L) (io : LobbyIo) (event : LobbyEvent) (acc : Account) :
    acc.tally (L.step io event).actions + acc.owed (L.step io event) =
      acc.owed L + (L.unopened event).countP acc.counts := by
  obtain ⟨q, -, o, -, -, hmoves⟩ := step_moves hinv io event
  have hsubmits : ∀ rs : List SubmitRequest, acc.tally (rs.map .submitRequest) = 0 := by
    intro rs
    induction rs with
    | nil => rfl
    | cons r rs ih =>
      have hcons : acc.tally ((r :: rs).map .submitRequest) =
        acc.weight (.submitRequest r) + acc.tally (rs.map .submitRequest) :=
        List.sum_cons
      rw [hcons, ih, isIdle_weight acc rfl, add_zero]
  have htally := hmoves.tally acc
  rw [show acc.tally ({ L with out := {} } : Lobby).out.actions = 0 from rfl, zero_add] at htally
  unfold actions Batch.finish
  rw [Account.tally_append, hsubmits, add_zero, htally]
  rfl

theorem run_tally (hrun : Run h L) (acc : Account) :
    acc.tally (said h) + acc.owed L = (notOpened h).countP acc.counts := by
  induction hrun with
  | start name => cases acc <;> rfl
  | @event h L io event hrun ih =>
    have hstep := step_tally (run_invariant hrun) io event acc
    unfold said notOpened at ih ⊢
    rw [List.flatMap_append, List.flatMap_append, Account.tally_append, List.countP_append]
    show acc.tally _ + acc.tally ((L.step io event).actions ++ []) + _ =
      ((_ + (L.unopened event ++ []).countP _ : ℕ) : ℤ)
    rw [List.append_nil, List.append_nil]
    push_cast
    omega

/-- Between events an attempt is to be settled exactly while it is neither over nor set up. -/
theorem Invariant.due (hinv : Invariant L) : L.Due ↔ L.stage ≠ .lobby ∧ L.stage ≠ .settled := by
  refine and_congr_right fun hlobby => ⟨?_, fun hearly => ?_⟩
  · rintro (⟨hrole, hpairs⟩ | ⟨-, hearly⟩) hsettled
    · obtain ⟨p, hone, -⟩ := hinv.player hrole hsettled
      rw [hone] at hpairs
      cases hpairs
    · exact hearly hsettled
  · cases hrole : L.role with
    | none => exact absurd hrole (hinv.role hlobby)
    | host => exact .inr ⟨rfl, hearly⟩
    | player => exact .inl ⟨rfl, hinv.early hearly⟩

end Sangtachi.Lobby
