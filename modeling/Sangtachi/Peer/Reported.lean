import Sangtachi.Peer.Notices

/-! # What a session reports to its tunnel

The end of a session comes once and is reported as a transition; an epoch that a renegotiation
replaced is reported as retired. -/
namespace Sangtachi.Peer

open Sangtachi.BigEndian Sangtachi.Packet

variable {C : SessionConfig} {E : SessionIo} {s s' : Session} {T : Millis}

/-- The transition into a terminal state. -/
def Event.ends : Event → Bool
  | .transition _ after => isTerminal after
  | _ => false

def Event.retired? : Event → Option U32
  | .retired epoch => some epoch
  | _ => none

def retiredOf (out : List Event) : List U32 := out.filterMap Event.retired?

def endsIn (out : List Event) : Bool := out.any Event.ends

theorem endsIn_notices (out : List Event) : endsIn (noticesOf out) = endsIn out := by
  induction out with
  | nil => rfl
  | cons x out ih =>
    have hcons : ∀ y l, endsIn (y :: l) = (y.ends || endsIn l) := fun _ _ => rfl
    by_cases hx : x.isNotice = true
    · rw [noticesOf, List.filter_cons_of_pos hx, hcons, hcons]
      exact congrArg _ ih
    · have hends : x.ends = false := by cases x <;> first | rfl | exact absurd rfl hx
      rw [noticesOf, List.filter_cons_of_neg hx, hcons, hends]
      exact ih

theorem retiredOf_notices (out : List Event) : retiredOf (noticesOf out) = retiredOf out := by
  induction out with
  | nil => rfl
  | cons x out ih =>
    by_cases hx : x.isNotice = true
    · rw [noticesOf, List.filter_cons_of_pos hx, retiredOf, retiredOf, List.filterMap_cons,
        List.filterMap_cons]
      rw [← noticesOf, ← retiredOf, ih, retiredOf]
    · have hnone : x.retired? = none := by cases x <;> first | rfl | exact absurd rfl hx
      rw [noticesOf, List.filter_cons_of_neg hx, retiredOf, retiredOf,
        List.filterMap_cons_none hnone]
      exact ih

/-- What became of the pinned epoch: it stayed, it was set for the first time, or a HELLO replaced
it and the old one is retired. -/
inductive EpochMoved (s : Session) (op : Op) (s' : Session) : Prop where
  | stayed : s'.pinned = s.pinned → retiredOf s'.out = [] → EpochMoved s op s'
  | pinned (p : RxPacket) : op = .receive p → s.active = true → s.pinned = none →
      s'.pinned = some p.header.sessionEpoch → retiredOf s'.out = [] → EpochMoved s op s'
  | replaced (p : RxPacket) (old : U32) : op = .receive p → s.active = true → s.pinned = some old →
      p.header.sessionEpoch ≠ old → s'.pinned = some p.header.sessionEpoch →
      retiredOf s'.out = [old] → EpochMoved s op s'

/-- The end of a session comes once, is stamped and is reported; the epoch moves with packets only.
-/
structure Reported (s : Session) (op : Op) (T : Millis) (s' : Session) : Prop where
  stays : s.active = false → s'.active = false
  since : s'.terminalSince = if s.active && !s'.active then some T else s.terminalSince
  ends : endsIn s'.out = (s.active && !s'.active)
  epoch : EpochMoved s op s'

theorem active_of_state (h : s'.state = s.state) : s'.active = s.active := by
  rw [Session.active, Session.active, h]

theorem active_eq_isTerminal (s : Session) : s.active = !isTerminal s.state := rfl

theorem retiredOf_append (a b : List Event) : retiredOf (a ++ b) = retiredOf a ++ retiredOf b :=
  List.filterMap_append ..

theorem endsIn_append (a b : List Event) : endsIn (a ++ b) = (endsIn a || endsIn b) :=
  List.any_append

theorem Moved.ends {before after : SessionState} {moved : List Event} (h : Moved before after moved)
    (hbefore : isTerminal before = false) : endsIn moved = isTerminal after := by
  rcases h with ⟨rfl, rfl⟩ | ⟨-, rfl⟩
  · exact hbefore.symm
  · simp [endsIn, Event.ends]

theorem Moved.retired {before after : SessionState} {moved : List Event}
    (h : Moved before after moved) :
    retiredOf moved = [] := by
  rcases h with ⟨-, rfl⟩ | ⟨-, rfl⟩ <;> rfl

theorem Reported.unmoved {op : Op} (hstate : s'.state = s.state)
    (hsince : s'.terminalSince = s.terminalSince) (hends : endsIn s'.out = false)
    (hepoch : EpochMoved s op s') : Reported s op T s' := by
  have hactive := active_of_state hstate
  have hnot : (s.active && !s'.active) = false := by
    rw [hactive]
    cases s.active <;> rfl
  constructor
  · exact fun h => hactive.trans h
  · rw [hnot, hsince]
    rfl
  · rw [hnot, hends]
  · exact hepoch

theorem endsIn_sent (sent : List Sent) : endsIn (sent.map .sent) = false := by
  rw [endsIn, List.any_map, List.any_eq_false]
  intro d _ h
  cases h

theorem retiredOf_sent (sent : List Sent) : retiredOf (sent.map .sent) = [] := by
  rw [retiredOf, List.filterMap_map, List.filterMap_eq_nil_iff]
  intro d _
  rfl

theorem Did.reported {op : Op} (hout : s.out = []) (h : Did C E s op T s') :
    Reported s op T s' := by
  have hends : ∀ {events : List Event}, noticesOf s'.out = noticesOf s.out ++ events →
      endsIn s'.out = endsIn events := by
    intro events he
    rw [← endsIn_notices, he, hout, noticesOf_nil, List.nil_append]
  have hretired : ∀ {events : List Event}, noticesOf s'.out = noticesOf s.out ++ events →
      retiredOf s'.out = retiredOf events := by
    intro events he
    rw [← retiredOf_notices, he, hout, noticesOf_nil, List.nil_append]
  cases h with
  | quiet hstate hquiet =>
    have hnotices : noticesOf s'.out = noticesOf s.out ++ [] := by
      rw [hquiet.notices, List.append_nil]
    exact .unmoved hstate hquiet.since (hends hnotices) (.stayed hquiet.pinned (hretired hnotices))
  | data inner hop hstate hdata =>
    obtain ⟨hheld, sent, hsent, -⟩ := hdata
    exact .unmoved hstate hheld.since ((hends hsent).trans (endsIn_sent sent))
      (.stayed hheld.pinned ((hretired hsent).trans (retiredOf_sent sent)))
  | ended st hst hactive hstate hsince hwindow hpinned hnotices =>
    have hinactive : s'.active = false := by rw [active_eq_isTerminal, hstate, hst]; rfl
    have hended : (s.active && !s'.active) = true := by rw [hactive, hinactive]; rfl
    constructor
    · exact fun _ => hinactive
    · rw [hended, hsince]
      rfl
    · rw [hends hnotices, hended]
      simp [endsIn, Event.ends, hst]
    · exact .stayed hpinned (hretired hnotices)
  | dropped p hop hactive hstate hpinned hsince hwindow hnotices =>
    rw [← List.append_nil (noticesOf s.out)] at hnotices
    exact .unmoved hstate hsince (hends hnotices) (.stayed hpinned (hretired hnotices))
  | renegotiated p old moved hop hactive htype hold hne hpinned hactive' hsince hmoved hnotices =>
    rw [List.append_assoc] at hnotices
    have hnot : (s.active && !s'.active) = false := by rw [hactive']; exact Bool.and_false _
    constructor
    · intro h
      rw [hactive] at h
      cases h
    · rw [hnot, hsince]
      rfl
    · rw [hends hnotices, hnot, endsIn_append, hmoved.ends (not_terminal_of_active hactive),
        not_terminal_of_active hactive']
      rfl
    · refine .replaced p old hop hactive hold hne hpinned ?_
      rw [hretired hnotices, retiredOf_append, hmoved.retired]
      rfl
  | accepted p delivered moved hop hactive haccepted hbefore hpinned hwindow hstamped hdelivered
    hmoved hnotices =>
    rw [List.append_assoc] at hnotices
    have hdel : endsIn delivered = false ∧ retiredOf delivered = [] := by
      rcases hdelivered with rfl | ⟨-, rfl⟩
      · exact ⟨rfl, rfl⟩
      · exact ⟨rfl, rfl⟩
    have hnow : (s.active && !s'.active) = isTerminal s'.state := by
      rw [hactive, active_eq_isTerminal, Bool.not_not, Bool.true_and]
    have hquiet : retiredOf s'.out = [] := by
      rw [hretired hnotices, retiredOf_append, hdel.2, hmoved.retired]
      rfl
    constructor
    · intro h
      rw [hactive] at h
      cases h
    · rw [hnow]
      exact hstamped
    · rw [hends hnotices, hnow, endsIn_append, hdel.1, hmoved.ends (not_terminal_of_active hactive)]
      rfl
    · rcases hbefore with hnone | hsome
      · exact .pinned p hop hactive hnone hpinned hquiet
      · exact .stayed (hpinned.trans hsome.symm) hquiet

theorem step_reported (s : Session) (op : Op) (T : Millis) : Reported s op T (step C E s op T) := by
  have h := (step_did (C := C) (E := E) (s := s) (T := T) op).reported rfl
  exact ⟨h.stays, h.since, h.ends, by
    cases h.epoch with
    | stayed hp hr => exact .stayed hp hr
    | pinned p hop ha hp hs hr => exact .pinned p hop ha hp hs hr
    | replaced p old hop ha hp hne hs hr => exact .replaced p old hop ha hp hne hs hr⟩

theorem startPunch_active : (startPunch C E s T).2.active = s.active := by
  unfold startPunch
  split_ifs
  · rfl
  dsimp only
  split_ifs
  · rfl
  · exact active_of_terminal (s := s) (sendHelloRound_same (C := C) (E := E)).terminal

theorem step_keeps_active {op : Op} (h : op = .startPunch ∨ op.isTraffic = true) :
    (step C E s op T).active = s.active := by
  rcases h with rfl | h
  · exact startPunch_active
  · cases op with
    | sendData inner => exact active_of_terminal (sendData_same inner).terminal
    | sendRoster payload => exact active_of_terminal (sendToPeer_same (by decide) payload).terminal
    | startPunch => cases h
    | poll => cases h
    | receive p => cases h
    | closeByUser => cases h

theorem closeByUser_inactive : (closeByUser C E s T).active = false := by
  unfold closeByUser
  by_cases hactive : s.active = true
  · rw [hactive]
    rfl
  · rw [Bool.not_eq_true] at hactive
    rw [if_pos (by rw [hactive]; rfl)]
    exact hactive

theorem closeByUser_transition (hactive : s.active = true) :
    .transition s.state .closed ∈ (closeByUser C E s T).out := by
  unfold closeByUser
  rw [hactive]
  simp only [Bool.not_true, Bool.false_eq_true, if_false]
  generalize (if s.state = .connected then CloseReason.normal else .userCancel) = reason
  have hstate := sendClose_state (C := C) (E := E) (s := s) reason
  generalize sendClose C E s reason = u at hstate ⊢
  rw [← hstate]
  exact List.mem_append_right _ (List.mem_singleton_self _)

theorem step_close (s : Session) : (step C E s .closeByUser T).active = false ∧
    (s.active = true → .transition s.state .closed ∈ (step C E s .closeByUser T).out) :=
  ⟨closeByUser_inactive, fun h => closeByUser_transition (s := { s with out := [] }) h⟩

/-! ## Transitions -/

def Event.transition? : Event → Option (SessionState × SessionState)
  | .transition before after => some (before, after)
  | _ => none

def transitionsOf (out : List Event) : List (SessionState × SessionState) :=
  out.filterMap Event.transition?

theorem transitionsOf_append (a b : List Event) :
    transitionsOf (a ++ b) = transitionsOf a ++ transitionsOf b :=
  List.filterMap_append ..

theorem transitionsOf_notices (out : List Event) :
    transitionsOf (noticesOf out) = transitionsOf out := by
  induction out with
  | nil => rfl
  | cons x rest ih =>
    have hone : transitionsOf (noticesOf [x]) = transitionsOf [x] := by
      cases x with
      | sent d =>
        by_cases hd : d.type = .data
        · simp [noticesOf, Event.isNotice, hd]
        · rw [noticesOf_sent hd]
          rfl
      | delivered inner => rfl
      | line l => rfl
      | transition before after => rfl
      | retired epoch => rfl
    have hcons : x :: rest = [x] ++ rest := rfl
    rw [hcons, noticesOf_append, transitionsOf_append, transitionsOf_append, hone, ih]

theorem transitionsOf_sent (sent : List Sent) : transitionsOf (sent.map .sent) = [] := by
  induction sent with
  | nil => rfl
  | cons d rest ih => exact ih

/-- The transitions that lead from one state to another in one call. -/
def move (before after : SessionState) : List (SessionState × SessionState) :=
  if after = before then [] else [(before, after)]

theorem Moved.transitions {before after : SessionState} {moved : List Event}
    (h : Moved before after moved) :
    transitionsOf moved = move before after := by
  unfold move
  rcases h with ⟨hsame, rfl⟩ | ⟨hne, rfl⟩
  · rw [if_pos hsame]
    rfl
  · rw [if_neg hne]
    rfl

theorem Did.transitions {op : Op} (hout : s.out = []) (h : Did C E s op T s') :
    transitionsOf s'.out = move s.state s'.state := by
  have hnone : noticesOf s.out = [] := by rw [hout]; rfl
  rw [← transitionsOf_notices]
  cases h with
  | quiet hstate hun =>
    rw [hun.notices, hnone, hstate, move, if_pos rfl]
    rfl
  | data inner _ hstate hsent =>
    obtain ⟨-, sent, hnotices, -⟩ := hsent
    rw [hnotices, hnone, hstate, move, if_pos rfl]
    exact transitionsOf_sent sent
  | ended st hst hactive hstate _ _ _ hnotices =>
    rw [hnotices, hnone, hstate, move, if_neg]
    · rfl
    · intro hsame
      have hnot := not_terminal_of_active hactive
      rw [← hsame, hst] at hnot
      cases hnot
  | dropped p _ _ hstate _ _ _ hnotices =>
    rw [hnotices, hnone, hstate, move, if_pos rfl]
    rfl
  | renegotiated p old moved _ _ _ _ _ _ _ _ hmoved hnotices =>
    rw [hnotices, hnone, transitionsOf_append]
    exact hmoved.transitions
  | accepted p delivered moved _ _ _ _ _ _ _ hdelivered hmoved hnotices =>
    rw [hnotices, hnone, transitionsOf_append, hmoved.transitions]
    rcases hdelivered with rfl | ⟨-, rfl⟩
    · rfl
    · rfl

theorem step_transitions (s : Session) (op : Op) (T : Millis) :
    transitionsOf (step C E s op T).out = move s.state (step C E s op T).state := by
  have h := (step_did (C := C) (E := E) (s := s) (T := T) op).transitions rfl
  exact h

end Sangtachi.Peer
