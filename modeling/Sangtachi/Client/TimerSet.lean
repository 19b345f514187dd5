import Mathlib.Data.BitVec
import Mathlib.Data.List.Pairwise
import Mathlib.Data.List.Nodup
import Mathlib.Data.List.Sort
import Mathlib.Tactic.Common

/-! # Timers by name

The timer set of the loop. A callback is a program that adds and cancels timers and looks at the
set between, and it may carry a state of its own from one tick to the next. Clock readings are
64-bit and their sum wraps. -/
namespace Sangtachi.Timers

abbrev Millis := BitVec 64

structure Timer (Name : Type*) where
  name : Name
  intervalMs : Millis
  deadline : Millis
  lastFired : Millis
  repeating : Bool
  /-- Unlike a name, never used again. -/
  id : ℕ
  deriving DecidableEq, Repr

structure TimerTick (Name : Type*) where
  name : Name
  elapsedMs : Millis
  deriving DecidableEq, Repr

structure TimerSet (Name : Type*) where
  timers : List (Timer Name)
  nextId : ℕ
  /-- The timer whose callback is running, or 0. -/
  firingId : ℕ
  cancelPending : Bool
  deriving Repr

variable {Name : Type*} [DecidableEq Name] {World : Type*}

def empty : TimerSet Name := ⟨[], 1, 0, false⟩

/-- The node goes away once its callback returns, and counts as gone until then. -/
def TimerSet.doomed (s : TimerSet Name) (t : Timer Name) : Bool :=
  s.cancelPending && t.id == s.firingId

def TimerSet.find (s : TimerSet Name) (name : Name) : Option (Timer Name) :=
  s.timers.find? fun t => !s.doomed t && decide (t.name = name)

def TimerSet.contains (s : TimerSet Name) (name : Name) : Bool := (s.find name).isSome

def TimerSet.pushBack (s : TimerSet Name) (name : Name) (intervalMs now : Millis)
    (repeating : Bool) :
    TimerSet Name :=
  { s with
    timers := s.timers ++ [⟨name, intervalMs, now + intervalMs, now, repeating, s.nextId⟩]
    nextId := s.nextId + 1 }

def TimerSet.addPeriodic (s : TimerSet Name) (name : Name) (intervalMs now : Millis) :
    TimerSet Name × Bool :=
  if s.contains name then (s, false) else (s.pushBack name intervalMs now true, true)

def TimerSet.addOnce (s : TimerSet Name) (name : Name) (delayMs now : Millis) :
    TimerSet Name × Bool :=
  if s.contains name then (s, false) else (s.pushBack name delayMs now false, true)

/-- Takes out the node with this number; there is at most one. -/
def TimerSet.erase (s : TimerSet Name) (id : ℕ) : TimerSet Name :=
  { s with timers := s.timers.filter (·.id ≠ id) }

/-- The source answers whether there was such a timer; here the answer names it. -/
def TimerSet.cancel (s : TimerSet Name) (name : Name) : TimerSet Name × Option ℕ :=
  match s.find name with
  | none => (s, none)
  | some t =>
    if t.id = s.firingId then ({ s with cancelPending := true }, some t.id) else
      (s.erase t.id, some t.id)

/-- The earlier of a deadline found so far and that of `t`. -/
def earlier (earliest : Option Millis) (t : Timer Name) : Option Millis :=
  match earliest with
  | none => some t.deadline
  | some d => if t.deadline < d then some t.deadline else some d

def TimerSet.earliestDeadline (s : TimerSet Name) : Option Millis :=
  s.timers.foldl (fun earliest t => if s.doomed t then earliest else earlier earliest t) none

/-! ## Callbacks -/

/-- What a callback does: each call of it goes on with the answer. -/
inductive Program (Name World : Type*) where
  | done (world : World)
  | addPeriodic (name : Name) (intervalMs now : Millis) (rest : Bool → Program Name World)
  | addOnce (name : Name) (delayMs now : Millis) (rest : Bool → Program Name World)
  | cancel (name : Name) (rest : Bool → Program Name World)
  | look (rest : TimerSet Name → Program Name World)

/-- How a callback went: the set and the state it left, the timers it cancelled and the sets it
went through. -/
structure Outcome (Name World : Type*) where
  set : TimerSet Name
  world : World
  cancelled : List ℕ
  states : List (TimerSet Name)

def Program.run : Program Name World → TimerSet Name → Outcome Name World
  | .done world, s => ⟨s, world, [], [s]⟩
  | .addPeriodic name intervalMs now rest, s =>
    let o := (rest (s.addPeriodic name intervalMs now).2).run (s.addPeriodic name intervalMs now).1
    { o with states := s :: o.states }
  | .addOnce name delayMs now rest, s =>
    let o := (rest (s.addOnce name delayMs now).2).run (s.addOnce name delayMs now).1
    { o with states := s :: o.states }
  | .cancel name rest, s =>
    let o := (rest (s.cancel name).2.isSome).run (s.cancel name).1
    { o with cancelled := (s.cancel name).2.toList ++ o.cancelled, states := s :: o.states }
  | .look rest, s => (rest s).run s

/-- A callback of a pass: its timer, the tick it was called with, the set it found, and how it
went. -/
structure Call (Name World : Type*) where
  id : ℕ
  tick : TimerTick Name
  found : TimerSet Name
  outcome : Outcome Name World

/-- A repeating timer does not catch up on the periods it missed. -/
def Timer.rearm (now : Millis) (t : Timer Name) : Timer Name :=
  { t with lastFired := now, deadline := now + t.intervalMs }

/-- The set in which the callback of `t` starts. -/
def TimerSet.enter (s : TimerSet Name) (now : Millis) (t : Timer Name) : TimerSet Name :=
  if t.repeating then
    { s with
      timers := s.timers.map fun u => if u.id = t.id then u.rearm now else u
      firingId := t.id
      cancelPending := false }
  else s.erase t.id

/-- The set once the callback of `t` is over. -/
def TimerSet.leave (s : TimerSet Name) (t : Timer Name) : TimerSet Name :=
  if t.repeating then
    let idle := { s with firingId := 0, cancelPending := false }
    if s.cancelPending then idle.erase t.id else idle
  else s

structure Pass (Name World : Type*) where
  set : TimerSet Name
  world : World
  calls : List (Call Name World)

/-- One timer of the pass; it is gone when an earlier callback cancelled it. -/
def TimerSet.fire (now : Millis) (onTick : World → TimerTick Name → Program Name World)
    (s : TimerSet Name) (world : World) (id : ℕ) : Pass Name World :=
  match s.timers.find? (·.id = id) with
  | none => ⟨s, world, []⟩
  | some t =>
    let tick : TimerTick Name := ⟨t.name, now - t.lastFired⟩
    let o := (onTick world tick).run (s.enter now t)
    ⟨o.set.leave t, o.world, [⟨id, tick, s.enter now t, o⟩]⟩

def TimerSet.fireAll (now : Millis) (onTick : World → TimerTick Name → Program Name World) :
    TimerSet Name → World → List ℕ → Pass Name World
  | s, world, [] => ⟨s, world, []⟩
  | s, world, id :: due =>
    let first := s.fire now onTick world id
    let rest := first.set.fireAll now onTick first.world due
    { rest with calls := first.calls ++ rest.calls }

def TimerSet.dueIds (s : TimerSet Name) (now : Millis) : List ℕ :=
  (s.timers.filter fun t => decide (t.deadline ≤ now)).map Timer.id

def TimerSet.runExpired (s : TimerSet Name) (now : Millis)
    (onTick : World → TimerTick Name → Program Name World) (world : World) : Pass Name World :=
  s.fireAll now onTick world (s.dueIds now)

/-- A set as its calls can make it, from the empty one. -/
inductive Reachable : TimerSet Name → Prop
  | empty : Reachable empty
  | addPeriodic {s : TimerSet Name} (name : Name) (intervalMs now : Millis) :
      Reachable s → Reachable (s.addPeriodic name intervalMs now).1
  | addOnce {s : TimerSet Name} (name : Name) (delayMs now : Millis) :
      Reachable s → Reachable (s.addOnce name delayMs now).1
  | cancel {s : TimerSet Name} (name : Name) : Reachable s → Reachable (s.cancel name).1
  | runExpired {s : TimerSet Name} {World : Type} (now : Millis)
      (onTick : World → TimerTick Name → Program Name World) (world : World) :
      Reachable s → Reachable (s.runExpired now onTick world).set

/-! ## What a lookup sees -/

/-- The timers that count: the one whose deletion is put off is not among them. -/
def TimerSet.live (s : TimerSet Name) : List (Timer Name) := s.timers.filter fun t => !s.doomed t

omit [DecidableEq Name] in
theorem TimerSet.mem_live {s : TimerSet Name} {t : Timer Name} :
    t ∈ s.live ↔ t ∈ s.timers ∧ ¬ (s.cancelPending = true ∧ t.id = s.firingId) := by
  simp only [live, doomed, List.mem_filter, Bool.not_eq_true', Bool.and_eq_false_iff,
    beq_eq_false_iff_ne,
    not_and]
  refine and_congr_right fun _ => ?_
  cases s.cancelPending <;> simp

theorem TimerSet.find_eq (s : TimerSet Name) (name : Name) :
    s.find name = s.live.find? fun t => decide (t.name = name) := by
  rw [find, live, List.find?_filter]
  congr 1
  funext t
  simp

theorem TimerSet.find_some {s : TimerSet Name} {name : Name} {t : Timer Name}
    (h : s.find name = some t) :
    t ∈ s.live ∧ t.name = name := by
  rw [find_eq] at h
  exact ⟨List.mem_of_find?_eq_some h, by simpa using List.find?_some h⟩

theorem TimerSet.contains_iff {s : TimerSet Name} {name : Name} :
    s.contains name = true ↔ ∃ t ∈ s.live, t.name = name := by
  rw [contains, find_eq, List.find?_isSome]
  simp

omit [DecidableEq Name] in
/-- A set between two calls of the loop, or in the middle of a callback. -/
structure WellFormed (s : TimerSet Name) : Prop where
  order : (s.timers.map Timer.id).Pairwise (· < ·)
  numbered : ∀ t ∈ s.timers, 0 < t.id ∧ t.id < s.nextId
  firing : s.firingId < s.nextId
  names : (s.live.map Timer.name).Nodup

/-- What one call of a callback can do to the set, and the timer it cancels. -/
inductive Change (s : TimerSet Name) : TimerSet Name → Option ℕ → Prop
  | same : Change s s none
  | added (name : Name) (intervalMs now : Millis) (repeating : Bool) :
      s.contains name = false → Change s (s.pushBack name intervalMs now repeating) none
  | marked (t : Timer Name) : t ∈ s.live → t.id = s.firingId →
      Change s { s with cancelPending := true } (some t.id)
  | erased (t : Timer Name) : t ∈ s.live → t.id ≠ s.firingId → Change s (s.erase t.id) (some t.id)

theorem TimerSet.addPeriodic_change (s : TimerSet Name) (name : Name) (intervalMs now : Millis) :
    Change s (s.addPeriodic name intervalMs now).1 none := by
  unfold addPeriodic
  by_cases h : s.contains name = true
  · rw [if_pos h]
    exact .same
  · rw [if_neg h]
    exact .added name intervalMs now true (by simpa using h)

theorem TimerSet.addOnce_change (s : TimerSet Name) (name : Name) (delayMs now : Millis) :
    Change s (s.addOnce name delayMs now).1 none := by
  unfold addOnce
  by_cases h : s.contains name = true
  · rw [if_pos h]
    exact .same
  · rw [if_neg h]
    exact .added name delayMs now false (by simpa using h)

theorem TimerSet.cancel_change (s : TimerSet Name) (name : Name) :
    Change s (s.cancel name).1 (s.cancel name).2 := by
  unfold cancel
  cases hfind : s.find name with
  | none => exact .same
  | some t =>
    obtain ⟨hlive, _⟩ := find_some hfind
    dsimp only
    by_cases hfiring : t.id = s.firingId
    · rw [if_pos hfiring]
      exact .marked t hlive hfiring
    · rw [if_neg hfiring]
      exact .erased t hlive hfiring

/-! ## What a change keeps -/

omit [DecidableEq Name] in
theorem live_pushBack {s : TimerSet Name} (h : WellFormed s) (name : Name) (intervalMs now : Millis)
    (repeating : Bool) :
    (s.pushBack name intervalMs now repeating).live =
      s.live ++ [⟨name, intervalMs, now + intervalMs, now, repeating, s.nextId⟩] := by
  have hne : s.nextId ≠ s.firingId := h.firing.ne'
  have hdoomed : (s.pushBack name intervalMs now repeating).doomed = s.doomed := rfl
  unfold TimerSet.live
  rw [hdoomed]
  change List.filter _ (s.timers ++ [_]) = _
  rw [List.filter_append]
  congr 1
  simp [TimerSet.doomed, hne]

omit [DecidableEq Name] in
theorem live_erase (s : TimerSet Name) (id : ℕ) :
    (s.erase id).live = s.live.filter (·.id ≠ id) := by
  have hdoomed : (s.erase id).doomed = s.doomed := rfl
  unfold TimerSet.live
  rw [hdoomed, TimerSet.erase, List.filter_filter, List.filter_filter]
  congr 1
  funext t
  exact Bool.and_comm _ _

omit [DecidableEq Name] in
theorem live_marked (s : TimerSet Name) :
    TimerSet.live { s with cancelPending := true } = s.live.filter (·.id ≠ s.firingId) := by
  unfold TimerSet.live
  rw [List.filter_filter]
  congr 1
  funext t
  simp only [TimerSet.doomed]
  cases s.cancelPending <;> by_cases ht : t.id = s.firingId <;> simp [ht]

theorem change_wellFormed {s s' : TimerSet Name} {hit : Option ℕ} (h : WellFormed s)
    (hchange : Change s s' hit) : WellFormed s' := by
  cases hchange with
  | same => exact h
  | added name intervalMs now repeating hfree =>
    have hnew : ∀ t ∈ (s.pushBack name intervalMs now repeating).timers,
        t ∈ s.timers ∨ t.id = s.nextId := by
      intro t ht
      rcases List.mem_append.mp ht with ht | ht
      · exact .inl ht
      · right
        rw [List.mem_singleton.mp ht]
    refine ⟨?_, ?_, ?_, ?_⟩
    · change ((s.timers ++ [_]).map Timer.id).Pairwise (· < ·)
      rw [List.map_append, List.pairwise_append]
      refine ⟨h.order, List.pairwise_singleton _ _, ?_⟩
      intro a ha b hb
      obtain ⟨t, ht, rfl⟩ := List.mem_map.mp ha
      rw [List.mem_singleton.mp hb]
      exact (h.numbered t ht).2
    · intro t ht
      change 0 < t.id ∧ t.id < s.nextId + 1
      have hfiring := h.firing
      rcases hnew t ht with ht | ht
      · have := h.numbered t ht
        omega
      · omega
    · change s.firingId < s.nextId + 1
      have hfiring := h.firing
      omega
    · rw [live_pushBack h, List.map_append, List.nodup_append]
      refine ⟨h.names, List.nodup_singleton _, ?_⟩
      intro a ha b hb
      obtain ⟨t, ht, rfl⟩ := List.mem_map.mp ha
      rw [List.mem_singleton.mp hb]
      intro heq
      have := TimerSet.contains_iff.mpr ⟨t, ht, heq⟩
      rw [hfree] at this
      cases this
  | marked t _ _ =>
    refine ⟨h.order, h.numbered, h.firing, ?_⟩
    rw [live_marked]
    exact h.names.sublist (List.filter_sublist.map Timer.name)
  | erased t _ _ =>
    refine ⟨h.order.sublist (List.filter_sublist.map Timer.id), ?_, h.firing, ?_⟩
    · intro u hu
      exact h.numbered u (List.mem_of_mem_filter hu)
    · rw [live_erase]
      exact h.names.sublist (List.filter_sublist.map Timer.name)

/-- Of the timers that were there, a change takes out the one it cancels, unless its callback is
running; the others stay as they are. -/
theorem change_mem {s s' : TimerSet Name} {hit : Option ℕ} (hchange : Change s s' hit)
    {t : Timer Name} (ht : t.id < s.nextId) :
    t ∈ s'.timers ↔ t ∈ s.timers ∧ (hit ≠ some t.id ∨ t.id = s.firingId) := by
  cases hchange with
  | same => simp
  | added name intervalMs now repeating _ =>
    change t ∈ s.timers ++ [_] ↔ _
    rw [List.mem_append, List.mem_singleton]
    constructor
    · rintro (hmem | rfl)
      · exact ⟨hmem, by simp⟩
      · exact absurd ht (lt_irrefl _)
    · rintro ⟨hmem, _⟩
      exact .inl hmem
  | marked u _ hfiring =>
    constructor
    · intro hmem
      refine ⟨hmem, ?_⟩
      by_cases heq : t.id = s.firingId
      · exact .inr heq
      · left
        intro hsome
        apply heq
        rw [← hfiring]
        exact (Option.some.inj hsome).symm
    · rintro ⟨hmem, _⟩
      exact hmem
  | erased u _ hfiring =>
    change t ∈ s.timers.filter _ ↔ _
    rw [List.mem_filter]
    refine and_congr_right fun _ => ?_
    simp only [decide_eq_true_eq, ne_eq, Option.some.injEq]
    constructor
    · intro hne
      exact .inl (Ne.symm hne)
    · rintro (hne | heq)
      · exact Ne.symm hne
      · rw [heq]
        exact Ne.symm hfiring

theorem change_firingId {s s' : TimerSet Name} {hit : Option ℕ} (hchange : Change s s' hit) :
    s'.firingId = s.firingId := by
  cases hchange <;> rfl

theorem change_nextId {s s' : TimerSet Name} {hit : Option ℕ} (hchange : Change s s' hit) :
    s.nextId ≤ s'.nextId := by
  cases hchange
  case added => exact Nat.le_succ _
  all_goals exact le_rfl

/-- The deletion is put off once the callback has cancelled its own timer. -/
theorem change_pending {s s' : TimerSet Name} {hit : Option ℕ} (hchange : Change s s' hit) :
    s'.cancelPending = true ↔ s.cancelPending = true ∨ hit = some s.firingId := by
  cases hchange with
  | same => simp
  | added => simp [TimerSet.pushBack]
  | marked t _ hfiring => simp [hfiring]
  | erased t _ hfiring => simp [TimerSet.erase, hfiring]

theorem change_hit {s s' : TimerSet Name} {id : ℕ} (h : WellFormed s)
    (hchange : Change s s' (some id)) :
    0 < id := by
  cases hchange with
  | marked t ht _ => exact (h.numbered t (TimerSet.mem_live.mp ht).1).1
  | erased t ht _ => exact (h.numbered t (TimerSet.mem_live.mp ht).1).1

/-! ## A whole callback -/

/-- What a callback does to the set it found, however many calls it makes. -/
structure Ran (s : TimerSet Name) (o : Outcome Name World) : Prop where
  wellFormed : WellFormed o.set
  firingId : o.set.firingId = s.firingId
  nextId : s.nextId ≤ o.set.nextId
  kept : ∀ t : Timer Name, t.id < s.nextId →
    (t ∈ o.set.timers ↔ t ∈ s.timers ∧ (t.id ∉ o.cancelled ∨ t.id = s.firingId))
  pending : o.set.cancelPending = true ↔ s.cancelPending = true ∨ s.firingId ∈ o.cancelled
  hits : ∀ id ∈ o.cancelled, 0 < id
  states : ∀ x ∈ o.states, (x.live.map Timer.name).Nodup

theorem ran_change {s s' : TimerSet Name} {hit : Option ℕ} {o : Outcome Name World}
    (h : WellFormed s) (hchange : Change s s' hit) (hrest : Ran s' o) :
    Ran s { o with cancelled := hit.toList ++ o.cancelled, states := s :: o.states } := by
  have hfiring := change_firingId hchange
  have hnext := change_nextId hchange
  refine ⟨hrest.wellFormed, hrest.firingId.trans hfiring, hnext.trans hrest.nextId, ?_, ?_, ?_, ?_⟩
  · intro t ht
    change t ∈ o.set.timers ↔ _
    rw [hrest.kept t (by omega), change_mem hchange ht, hfiring]
    simp only [List.mem_append, Option.mem_toList]
    tauto
  · change o.set.cancelPending = true ↔ _
    rw [hrest.pending, change_pending hchange, hfiring]
    simp only [List.mem_append, Option.mem_toList]
    tauto
  · intro id hid
    rcases List.mem_append.mp hid with hid | hid
    · obtain rfl := Option.mem_def.mp (Option.mem_toList.mp hid)
      exact change_hit h hchange
    · exact hrest.hits id hid
  · intro x hx
    rcases List.mem_cons.mp hx with rfl | hx
    · exact h.names
    · exact hrest.states x hx

theorem program_ran (p : Program Name World) {s : TimerSet Name} (h : WellFormed s) :
    Ran s (p.run s) := by
  induction p generalizing s with
  | done world =>
    refine ⟨h, rfl, le_rfl, ?_, ?_, ?_, ?_⟩
    · intro t _
      simp [Program.run]
    · simp [Program.run]
    · intro id hid
      cases hid
    · intro x hx
      rw [List.mem_singleton.mp hx]
      exact h.names
  | addPeriodic name intervalMs now rest ih =>
    have hchange := s.addPeriodic_change name intervalMs now
    exact ran_change h hchange (ih _ (change_wellFormed h hchange))
  | addOnce name delayMs now rest ih =>
    have hchange := s.addOnce_change name delayMs now
    exact ran_change h hchange (ih _ (change_wellFormed h hchange))
  | cancel name rest ih =>
    have hchange := s.cancel_change name
    exact ran_change h hchange (ih _ (change_wellFormed h hchange))
  | look rest ih => exact ih s h

/-! ## One timer of a pass -/

/-- A set while no callback runs. -/
structure Idle (s : TimerSet Name) : Prop where
  wellFormed : WellFormed s
  firingId : s.firingId = 0
  pending : s.cancelPending = false

section

omit [DecidableEq Name]

theorem live_of_not_pending {s : TimerSet Name} (h : s.cancelPending = false) :
    s.live = s.timers := by
  unfold TimerSet.live
  apply List.filter_eq_self.mpr
  intro t _
  simp [TimerSet.doomed, h]

theorem id_unique {s : TimerSet Name} (h : WellFormed s) {t u : Timer Name} (ht : t ∈ s.timers)
    (hu : u ∈ s.timers) (heq : t.id = u.id) : t = u :=
  List.inj_on_of_nodup_map (h.order.imp Nat.ne_of_lt) ht hu heq

theorem enter_repeating {s : TimerSet Name} {t : Timer Name} (now : Millis)
    (ht : t.repeating = true) :
    s.enter now t = { s with
      timers := s.timers.map fun u => if u.id = t.id then u.rearm now else u
      firingId := t.id
      cancelPending := false } := if_pos ht

theorem enter_once {s : TimerSet Name} {t : Timer Name} (now : Millis) (ht : t.repeating = false) :
    s.enter now t = s.erase t.id := if_neg (by simp [ht])

theorem mem_erase {s : TimerSet Name} {id : ℕ} {t : Timer Name} :
    t ∈ (s.erase id).timers ↔ t ∈ s.timers ∧ t.id ≠ id := by
  change t ∈ s.timers.filter _ ↔ _
  rw [List.mem_filter, decide_eq_true_eq]

theorem mem_enter_repeating {s : TimerSet Name} (h : WellFormed s) {t : Timer Name}
    (ht : t ∈ s.timers) (hrep : t.repeating = true) (now : Millis) {u : Timer Name} :
    u ∈ (s.enter now t).timers ↔ (u ∈ s.timers ∧ u.id ≠ t.id) ∨ u = t.rearm now := by
  rw [enter_repeating now hrep]
  change u ∈ s.timers.map _ ↔ _
  rw [List.mem_map]
  constructor
  · rintro ⟨v, hv, rfl⟩
    by_cases hid : v.id = t.id
    · right
      rw [if_pos hid, id_unique h hv ht hid]
    · left
      rw [if_neg hid]
      exact ⟨hv, hid⟩
  · rintro (⟨hu, hid⟩ | rfl)
    · exact ⟨u, hu, if_neg hid⟩
    · exact ⟨t, ht, if_pos rfl⟩

end

theorem enter_wellFormed {s : TimerSet Name} (h : Idle s) {t : Timer Name} (ht : t ∈ s.timers)
    (now : Millis) : WellFormed (s.enter now t) := by
  have hwf := h.wellFormed
  by_cases hrep : t.repeating = true
  · have hids : (s.enter now t).timers.map Timer.id = s.timers.map Timer.id := by
      rw [enter_repeating now hrep, List.map_map]
      apply List.map_congr_left
      intro u _
      dsimp only [Function.comp]
      split <;> rfl
    have hnames : (s.enter now t).timers.map Timer.name = s.timers.map Timer.name := by
      rw [enter_repeating now hrep, List.map_map]
      apply List.map_congr_left
      intro u _
      dsimp only [Function.comp]
      split <;> rfl
    have hpending : (s.enter now t).cancelPending = false := by rw [enter_repeating now hrep]
    have hnext : (s.enter now t).nextId = s.nextId := by rw [enter_repeating now hrep]
    have hfiring : (s.enter now t).firingId = t.id := by rw [enter_repeating now hrep]
    refine ⟨?_, ?_, ?_, ?_⟩
    · rw [hids]
      exact hwf.order
    · intro u hu
      rw [hnext]
      rcases (mem_enter_repeating hwf ht hrep now).mp hu with ⟨hu, _⟩ | rfl
      · exact hwf.numbered u hu
      · exact hwf.numbered t ht
    · rw [hnext, hfiring]
      exact (hwf.numbered t ht).2
    · rw [live_of_not_pending hpending, hnames]
      have hnodup := hwf.names
      rw [live_of_not_pending h.pending] at hnodup
      exact hnodup
  · rw [enter_once now (by simpa using hrep)]
    have hlive : t ∈ s.live := by
      rw [live_of_not_pending h.pending]
      exact ht
    apply change_wellFormed hwf (.erased t hlive _)
    rw [h.firingId]
    exact (hwf.numbered t ht).1.ne'

/-- What the callback of `t` leaves of the timers that were there: those it did not cancel, and `t`
itself only if it repeats and was not cancelled by itself. -/
structure Fired (now : Millis) (s : TimerSet Name) (t : Timer Name) (cancelled : List ℕ)
    (s' : TimerSet Name) : Prop where
  idle : Idle s'
  nextId : s.nextId ≤ s'.nextId
  kept : ∀ u : Timer Name, u.id < s.nextId →
    (u ∈ s'.timers ↔ (u ∈ s.timers ∧ u.id ≠ t.id ∧ u.id ∉ cancelled) ∨
      (t.repeating = true ∧ t.id ∉ cancelled ∧ u = t.rearm now))

section

omit [DecidableEq Name]

theorem leave_once {s : TimerSet Name} {t : Timer Name} (ht : t.repeating = false) :
    s.leave t = s :=
  if_neg (by simp [ht])

theorem leave_kept {s : TimerSet Name} {t : Timer Name} (ht : t.repeating = true)
    (hpending : s.cancelPending = false) :
    s.leave t = { s with firingId := 0, cancelPending := false } := by
  unfold TimerSet.leave
  rw [if_pos ht]
  dsimp only
  rw [if_neg (by simp [hpending])]

theorem leave_cancelled {s : TimerSet Name} {t : Timer Name} (ht : t.repeating = true)
    (hpending : s.cancelPending = true) :
    s.leave t = TimerSet.erase { s with firingId := 0, cancelPending := false } t.id := by
  unfold TimerSet.leave
  rw [if_pos ht]
  dsimp only
  rw [if_pos hpending]

end

theorem once_fired {s : TimerSet Name} (h : Idle s) {t : Timer Name} (hrep : t.repeating = false)
    (now : Millis) {o : Outcome Name World} (ho : Ran (s.enter now t) o) :
    Fired now s t o.cancelled (o.set.leave t) := by
  rw [leave_once hrep]
  rw [enter_once now hrep] at ho
  have hfiring : o.set.firingId = 0 := ho.firingId.trans h.firingId
  refine ⟨⟨ho.wellFormed, hfiring, ?_⟩, ho.nextId, ?_⟩
  · by_contra hpending
    rcases ho.pending.mp (by simpa using hpending) with hset | hset
    · change s.cancelPending = true at hset
      rw [h.pending] at hset
      cases hset
    · change s.firingId ∈ o.cancelled at hset
      have := ho.hits _ hset
      rw [h.firingId] at this
      cases this
  · intro u hu
    rw [ho.kept u hu, mem_erase]
    have hpos : u ∈ s.timers → u.id ≠ s.firingId := by
      intro hmem
      rw [h.firingId]
      exact (h.wellFormed.numbered u hmem).1.ne'
    change _ ∧ (_ ∨ u.id = s.firingId) ↔ _
    rw [hrep]
    simp only [Bool.false_eq_true, false_and, or_false]
    tauto

omit [DecidableEq Name] in
theorem repeating_fired {s : TimerSet Name} (h : Idle s) {t : Timer Name} (ht : t ∈ s.timers)
    (hrep : t.repeating = true) (now : Millis) {o : Outcome Name World}
    (ho : Ran (s.enter now t) o) :
    Fired now s t o.cancelled (o.set.leave t) := by
  have hwf := h.wellFormed
  have hnextId : (s.enter now t).nextId = s.nextId := by rw [enter_repeating now hrep]
  have henter : (s.enter now t).firingId = t.id := by rw [enter_repeating now hrep]
  have hstart : (s.enter now t).cancelPending = false := by rw [enter_repeating now hrep]
  have hfiring : o.set.firingId = t.id := ho.firingId.trans henter
  have hnext : s.nextId ≤ o.set.nextId := hnextId ▸ ho.nextId
  have hpos : 0 < o.set.nextId := by
    have := hwf.numbered t ht
    omega
  have hpending : o.set.cancelPending = true ↔ t.id ∈ o.cancelled := by
    rw [ho.pending, hstart, henter]
    simp
  have hkept : ∀ u : Timer Name, u.id < s.nextId →
      (u ∈ o.set.timers ↔ (u ∈ s.timers ∧ u.id ≠ t.id ∧ u.id ∉ o.cancelled) ∨ u = t.rearm now) := by
    intro u hu
    rw [ho.kept u (by omega), mem_enter_repeating hwf ht hrep, henter]
    constructor
    · rintro ⟨⟨hmem, hne⟩ | heq, hcancel⟩
      · exact .inl ⟨hmem, hne, hcancel.resolve_right hne⟩
      · exact .inr heq
    · rintro (⟨hmem, hne, hcancel⟩ | heq)
      · exact ⟨.inl ⟨hmem, hne⟩, .inl hcancel⟩
      · exact ⟨.inr heq, .inr (by rw [heq]; rfl)⟩
  cases hset : o.set.cancelPending with
  | false =>
    have hnot : t.id ∉ o.cancelled := by
      rw [← hpending, hset]
      exact Bool.false_ne_true
    rw [leave_kept hrep hset]
    refine ⟨⟨⟨ho.wellFormed.order, ho.wellFormed.numbered, hpos, ?_⟩, rfl, rfl⟩, hnext, ?_⟩
    · have hnames := ho.wellFormed.names
      rw [live_of_not_pending hset] at hnames
      rw [live_of_not_pending rfl]
      exact hnames
    · intro u hu
      change u ∈ o.set.timers ↔ _
      rw [hkept u hu]
      simp [hrep, hnot]
  | true =>
    have hcancel : t.id ∈ o.cancelled := hpending.mp hset
    rw [leave_cancelled hrep hset]
    refine ⟨⟨⟨?_, ?_, hpos, ?_⟩, rfl, rfl⟩, hnext, ?_⟩
    · exact ho.wellFormed.order.sublist (List.filter_sublist.map Timer.id)
    · intro u hu
      exact ho.wellFormed.numbered u (mem_erase.mp hu).1
    · have hlive :
        TimerSet.live (TimerSet.erase { o.set with firingId := 0, cancelPending := false } t.id) =
          o.set.live := by
        rw [live_of_not_pending rfl]
        unfold TimerSet.live TimerSet.erase
        apply List.filter_congr
        intro u _
        by_cases hid : u.id = t.id <;> simp [TimerSet.doomed, hset, hfiring, hid]
      rw [hlive]
      exact ho.wellFormed.names
    · intro u hu
      rw [mem_erase]
      change u ∈ o.set.timers ∧ u.id ≠ t.id ↔ _
      rw [hkept u hu]
      constructor
      · rintro ⟨hmem | rfl, hne⟩
        · exact .inl hmem
        · exact absurd rfl hne
      · rintro (hmem | ⟨_, hnot, _⟩)
        · exact ⟨.inl hmem, hmem.2.1⟩
        · exact absurd hcancel hnot

theorem callback_fired {s : TimerSet Name} (h : Idle s) {t : Timer Name} (ht : t ∈ s.timers)
    (now : Millis) {o : Outcome Name World} (ho : Ran (s.enter now t) o) :
    Fired now s t o.cancelled (o.set.leave t) := by
  cases hrep : t.repeating with
  | false => exact once_fired h hrep now ho
  | true => exact repeating_fired h ht hrep now ho

/-! ## A whole pass -/

theorem fire_gone {s : TimerSet Name} {now : Millis}
    {onTick : World → TimerTick Name → Program Name World} {world : World} {id : ℕ}
    (h : ∀ t ∈ s.timers, t.id ≠ id) :
    s.fire now onTick world id = ⟨s, world, []⟩ := by
  have hfind : s.timers.find? (·.id = id) = none := by
    apply List.find?_eq_none.mpr
    intro t ht
    simpa using h t ht
  unfold TimerSet.fire
  rw [hfind]

/-- The call of the timer `t` in the set `s`. -/
def callOf (now : Millis) (onTick : World → TimerTick Name → Program Name World) (s : TimerSet Name)
    (world : World) (t : Timer Name) : Call Name World :=
  ⟨t.id, ⟨t.name, now - t.lastFired⟩, s.enter now t,
    (onTick world ⟨t.name, now - t.lastFired⟩).run (s.enter now t)⟩

theorem fire_due {s : TimerSet Name} {now : Millis}
    {onTick : World → TimerTick Name → Program Name World} {world : World} (h : WellFormed s)
    {t : Timer Name} (ht : t ∈ s.timers) :
    s.fire now onTick world t.id =
      ⟨(callOf now onTick s world t).outcome.set.leave t,
        (callOf now onTick s world t).outcome.world,
        [callOf now onTick s world t]⟩ := by
  have hfind : s.timers.find? (·.id = t.id) = some t := by
    cases hcase : s.timers.find? (·.id = t.id) with
    | none =>
      have := List.find?_eq_none.mp hcase t ht
      simp at this
    | some u =>
      have hid : u.id = t.id := by simpa using List.find?_some hcase
      rw [id_unique h (List.mem_of_find?_eq_some hcase) ht hid]
  unfold TimerSet.fire
  rw [hfind]
  rfl

section Pass

variable {now : Millis} {onTick : World → TimerTick Name → Program Name World}

theorem callOf_fired {s : TimerSet Name} (h : Idle s) (world : World) {t : Timer Name}
    (ht : t ∈ s.timers) :
    Fired now s t (callOf now onTick s world t).outcome.cancelled
      ((callOf now onTick s world t).outcome.set.leave t) :=
  callback_fired h ht now (program_ran _ (enter_wellFormed h ht now))

/-- The timers a pass over `due` calls, and those it leaves. -/
structure Passed (now : Millis) (s : TimerSet Name) (due : List ℕ)
    (pass : Pass Name World) : Prop where
  idle : Idle pass.set
  nextId : s.nextId ≤ pass.set.nextId
  called : ∀ id, id ∈ pass.calls.map Call.id ↔
    id ∈ due ∧ (∃ t ∈ s.timers, t.id = id) ∧ ∀ c ∈ pass.calls, c.id < id → id ∉ c.outcome.cancelled
  order : (pass.calls.map Call.id).Pairwise (· < ·)
  kept : ∀ u : Timer Name, u.id < s.nextId →
    (u ∈ pass.set.timers ↔
      (u ∈ s.timers ∧ u.id ∉ pass.calls.map Call.id ∧
        ∀ c ∈ pass.calls, u.id ∉ c.outcome.cancelled) ∨
      ∃ t ∈ s.timers, t.repeating = true ∧ t.id ∈ pass.calls.map Call.id ∧
        (∀ c ∈ pass.calls, t.id ∉ c.outcome.cancelled) ∧ u = t.rearm now)

omit [DecidableEq Name] in
theorem passed_cons {s s' : TimerSet Name} {t : Timer Name} {c : Call Name World} {due : List ℕ}
    {pass : Pass Name World} (h : WellFormed s) (hfired : Fired now s t c.outcome.cancelled s')
    (hid : c.id = t.id) (ht : t ∈ s.timers) (hrest : Passed now s' due pass)
    (hhead : ∀ d ∈ due, t.id < d) (hold : ∀ d ∈ due, d < s.nextId) :
    Passed now s (t.id :: due) { pass with calls := [c] ++ pass.calls } := by
  have hlater : ∀ d ∈ pass.calls.map Call.id, d ∈ due ∧ t.id < d := fun d hd =>
    ⟨((hrest.called d).mp hd).1, hhead d ((hrest.called d).mp hd).1⟩
  have hthere : ∀ d, d < s.nextId → d ≠ t.id →
      ((∃ u ∈ s'.timers, u.id = d) ↔ (∃ u ∈ s.timers, u.id = d) ∧ d ∉ c.outcome.cancelled) := by
    intro d hd hne
    constructor
    · rintro ⟨u, hu, rfl⟩
      rcases (hfired.kept u hd).mp hu with ⟨hmem, _, hnot⟩ | ⟨_, _, rfl⟩
      · exact ⟨⟨u, hmem, rfl⟩, hnot⟩
      · exact absurd rfl hne
    · rintro ⟨⟨u, hu, rfl⟩, hnot⟩
      exact ⟨u, (hfired.kept u hd).mpr (.inl ⟨hu, hne, hnot⟩), rfl⟩
  refine ⟨hrest.idle, hfired.nextId.trans hrest.nextId, ?_, ?_, ?_⟩
  · intro d
    change d ∈ c.id :: pass.calls.map Call.id ↔ d ∈ t.id :: due ∧ _ ∧ ∀ c' ∈ c :: pass.calls, _
    rw [List.forall_mem_cons, List.mem_cons, List.mem_cons, hid]
    by_cases hd : d = t.id
    · subst hd
      refine ⟨fun _ => ⟨.inl rfl, ⟨t, ht, rfl⟩, fun hlt => absurd hlt (lt_irrefl _), ?_⟩,
        fun _ => .inl rfl⟩
      intro c' hc' hlt
      have := (hlater c'.id (List.mem_map_of_mem hc')).2
      omega
    · constructor
      · rintro (hd' | hmem)
        · exact absurd hd' hd
        · obtain ⟨hdue, hin, hcancel⟩ := (hrest.called d).mp hmem
          obtain ⟨hin, hnot⟩ := (hthere d (hold d hdue) hd).mp hin
          exact ⟨.inr hdue, hin, fun _ => hnot, hcancel⟩
      · rintro ⟨hd' | hdue, hin, hfirst, hcancel⟩
        · exact absurd hd' hd
        · right
          refine (hrest.called d).mpr
            ⟨hdue, (hthere d (hold d hdue) hd).mpr ⟨hin, hfirst (hhead d hdue)⟩, hcancel⟩
  · change (c.id :: pass.calls.map Call.id).Pairwise (· < ·)
    rw [List.pairwise_cons, hid]
    exact ⟨fun d hd => (hlater d hd).2, hrest.order⟩
  · intro u hu
    change u ∈ pass.set.timers ↔
      (_ ∧ u.id ∉ c.id :: pass.calls.map Call.id ∧ ∀ c' ∈ c :: pass.calls, _) ∨
      ∃ v ∈ s.timers, _ ∧ v.id ∈ c.id :: pass.calls.map Call.id ∧ (∀ c' ∈ c :: pass.calls, _) ∧ _
    simp only [List.mem_cons, hid, not_or, forall_eq_or_imp]
    rw [hrest.kept u (lt_of_lt_of_le hu hfired.nextId), hfired.kept u hu]
    constructor
    · rintro (⟨⟨hmem, hne, hnot⟩ | ⟨hrep, hnot, rfl⟩, hcalls, hcancel⟩ | ⟨v, hv, hrep, hcalls,
        hcancel, rfl⟩)
      · exact .inl ⟨hmem, ⟨hne, hcalls⟩, hnot, hcancel⟩
      · exact .inr ⟨t, ht, hrep, .inl rfl, ⟨hnot, hcancel⟩, rfl⟩
      · obtain ⟨hdue, hlt⟩ := hlater v.id hcalls
        rcases (hfired.kept v (hold v.id hdue)).mp hv with ⟨hmem, _, hnot⟩ | ⟨_, _, rfl⟩
        · exact .inr ⟨v, hmem, hrep, .inr hcalls, ⟨hnot, hcancel⟩, rfl⟩
        · exact absurd hlt (lt_irrefl _)
    · rintro (⟨hmem, ⟨hne, hcalls⟩, hnot, hcancel⟩ | ⟨v, hv, hrep, heq | hcalls,
        ⟨hnot, hcancel⟩, rfl⟩)
      · exact .inl ⟨.inl ⟨hmem, hne, hnot⟩, hcalls, hcancel⟩
      · obtain rfl := id_unique h hv ht heq
        refine .inl ⟨.inr ⟨hrep, hnot, rfl⟩, ?_, hcancel⟩
        intro hmem
        exact absurd (hlater v.id hmem).2 (lt_irrefl _)
      · obtain ⟨hdue, hlt⟩ := hlater v.id hcalls
        right
        exact ⟨v, (hfired.kept v (hold v.id hdue)).mpr (.inl ⟨hv, hlt.ne', hnot⟩), hrep,
          hcalls, hcancel, rfl⟩

theorem fireAll_passed {due : List ℕ} (hdue : due.Pairwise (· < ·)) {s : TimerSet Name} (h : Idle s)
    (world : World) (hold : ∀ id ∈ due, id < s.nextId) :
    Passed now s due (s.fireAll now onTick world due) := by
  induction due generalizing s world with
  | nil =>
    refine ⟨h, le_rfl, ?_, List.Pairwise.nil, ?_⟩
    · intro id
      simp [TimerSet.fireAll]
    · intro u _
      simp [TimerSet.fireAll]
  | cons id due ih =>
    obtain ⟨hhead, htail⟩ := List.pairwise_cons.mp hdue
    unfold TimerSet.fireAll
    dsimp only
    by_cases hgone : ∀ t ∈ s.timers, t.id ≠ id
    · rw [fire_gone hgone]
      dsimp only
      have hrest := ih htail h world fun d hd => hold d (List.mem_cons_of_mem id hd)
      rw [List.nil_append]
      refine ⟨hrest.idle, hrest.nextId, ?_, hrest.order, hrest.kept⟩
      intro d
      change d ∈ (s.fireAll now onTick world due).calls.map Call.id ↔ _
      rw [hrest.called, List.mem_cons]
      constructor
      · rintro ⟨hmem, hthere, hcancel⟩
        exact ⟨.inr hmem, hthere, hcancel⟩
      · rintro ⟨rfl | hmem, ⟨t, ht, hid⟩, hcancel⟩
        · exact absurd hid (hgone t ht)
        · exact ⟨hmem, ⟨t, ht, hid⟩, hcancel⟩
    · push Not at hgone
      obtain ⟨t, ht, rfl⟩ := hgone
      rw [fire_due h.wellFormed ht]
      dsimp only
      generalize hc : callOf now onTick s world t = c
      have hid : c.id = t.id := by rw [← hc]; rfl
      have hfired : Fired now s t c.outcome.cancelled (c.outcome.set.leave t) := by
        rw [← hc]
        exact callOf_fired h world ht
      have hrest := ih htail hfired.idle c.outcome.world fun d hd =>
        lt_of_lt_of_le (hold d (List.mem_cons_of_mem t.id hd)) hfired.nextId
      generalize hpass :
        (c.outcome.set.leave t).fireAll now onTick c.outcome.world due = pass at hrest
      exact passed_cons h.wellFormed hfired hid ht hrest hhead fun d hd =>
        hold d (List.mem_cons_of_mem t.id hd)

/-- Every callback of a pass is that of a timer which was there, in the set its predecessors left.
-/
theorem fireAll_call {due : List ℕ} {s : TimerSet Name} (h : Idle s) (world : World)
    (hdue : due.Pairwise (· < ·)) (hold : ∀ id ∈ due, id < s.nextId) :
    ∀ c ∈ (s.fireAll now onTick world due).calls, ∃ (before : TimerSet Name) (w : World)
      (t : Timer Name),
      Idle before ∧ t ∈ s.timers ∧ t ∈ before.timers ∧ t.id ∈ due ∧
      c = callOf now onTick before w t := by
  induction due generalizing s world with
  | nil =>
    intro c hc
    cases hc
  | cons id due ih =>
    obtain ⟨hhead, htail⟩ := List.pairwise_cons.mp hdue
    intro c hc
    unfold TimerSet.fireAll at hc
    dsimp only at hc
    by_cases hgone : ∀ t ∈ s.timers, t.id ≠ id
    · rw [fire_gone hgone] at hc
      obtain ⟨before, w, t, hidle, hs, hb, hmem, heq⟩ :=
        ih h world htail (fun d hd => hold d (List.mem_cons_of_mem id hd)) c hc
      exact ⟨before, w, t, hidle, hs, hb, List.mem_cons_of_mem id hmem, heq⟩
    · push Not at hgone
      obtain ⟨t, ht, rfl⟩ := hgone
      rw [fire_due h.wellFormed ht] at hc
      have hfired : Fired now s t (callOf now onTick s world t).outcome.cancelled _ :=
        callOf_fired h world ht
      rcases List.mem_cons.mp hc with rfl | hc
      · exact ⟨s, world, t, h, ht, ht, List.mem_cons_self, rfl⟩
      · have hold' : ∀ d ∈ due, d < s.nextId := fun d hd => hold d (List.mem_cons_of_mem t.id hd)
        obtain ⟨before, w, v, hidle, hs, hb, hmem, heq⟩ := ih hfired.idle _ htail
          (fun d hd => lt_of_lt_of_le (hold' d hd) hfired.nextId) c hc
        refine ⟨before, w, v, hidle, ?_, hb, List.mem_cons_of_mem t.id hmem, heq⟩
        rcases (hfired.kept v (hold' v.id hmem)).mp hs with ⟨hin, _⟩ | ⟨_, _, rfl⟩
        · exact hin
        · exact absurd (hhead _ hmem) (lt_irrefl _)

end Pass

omit [DecidableEq Name] in
theorem mem_dueIds {s : TimerSet Name} {now : Millis} {id : ℕ} :
    id ∈ s.dueIds now ↔ ∃ t ∈ s.timers, t.deadline ≤ now ∧ t.id = id := by
  unfold TimerSet.dueIds
  simp only [List.mem_map, List.mem_filter, decide_eq_true_eq, and_assoc]

omit [DecidableEq Name] in
theorem dueIds_order {s : TimerSet Name} (h : WellFormed s) (now : Millis) :
    (s.dueIds now).Pairwise (· < ·) :=
  h.order.sublist (List.filter_sublist.map Timer.id)

omit [DecidableEq Name] in
theorem dueIds_lt {s : TimerSet Name} (h : WellFormed s) (now : Millis) :
    ∀ id ∈ s.dueIds now, id < s.nextId := by
  intro id hid
  obtain ⟨t, ht, _, rfl⟩ := mem_dueIds.mp hid
  exact (h.numbered t ht).2

theorem runExpired_passed {s : TimerSet Name} (h : Idle s) (now : Millis)
    (onTick : World → TimerTick Name → Program Name World) (world : World) :
    Passed now s (s.dueIds now) (s.runExpired now onTick world) :=
  fireAll_passed (dueIds_order h.wellFormed now) h world (dueIds_lt h.wellFormed now)

omit [DecidableEq Name] in
theorem idle_empty : Idle (empty : TimerSet Name) := by
  refine ⟨⟨List.Pairwise.nil, ?_, Nat.zero_lt_one, List.nodup_nil⟩, rfl, rfl⟩
  intro t ht
  cases ht

theorem idle_change {s s' : TimerSet Name} {hit : Option ℕ} (h : Idle s)
    (hchange : Change s s' hit) :
    Idle s' := by
  refine ⟨change_wellFormed h.wellFormed hchange, (change_firingId hchange).trans h.firingId, ?_⟩
  by_contra hpending
  rcases (change_pending hchange).mp (by simpa using hpending) with hset | rfl
  · rw [h.pending] at hset
    cases hset
  · have := change_hit h.wellFormed hchange
    rw [h.firingId] at this
    cases this

theorem reachable_idle {s : TimerSet Name} (h : Reachable s) : Idle s := by
  induction h with
  | empty => exact idle_empty
  | addPeriodic name intervalMs now _ ih =>
    exact idle_change ih (TimerSet.addPeriodic_change _ name intervalMs now)
  | addOnce name delayMs now _ ih =>
    exact idle_change ih (TimerSet.addOnce_change _ name delayMs now)
  | cancel name _ ih => exact idle_change ih (TimerSet.cancel_change _ name)
  | runExpired now onTick world _ ih => exact (runExpired_passed ih now onTick world).idle

/-! ## What a pass does -/

theorem leave_timers {s : TimerSet Name} (h : Idle s) {t : Timer Name} (ht : t ∈ s.timers)
    (now : Millis) {o : Outcome Name World} (ho : Ran (s.enter now t) o) :
    (o.set.leave t).timers = o.set.live := by
  have hidle := (callback_fired h ht now ho).idle
  cases hrep : t.repeating with
  | false =>
    rw [leave_once hrep] at hidle ⊢
    exact (live_of_not_pending hidle.pending).symm
  | true =>
    cases hset : o.set.cancelPending with
    | false =>
      rw [leave_kept hrep hset]
      exact (live_of_not_pending hset).symm
    | true =>
      have hfiring : o.set.firingId = t.id := ho.firingId.trans (by rw [enter_repeating now hrep])
      rw [leave_cancelled hrep hset]
      unfold TimerSet.live TimerSet.erase
      apply List.filter_congr
      intro u _
      by_cases hid : u.id = t.id <;> simp [TimerSet.doomed, hset, hfiring, hid]

theorem enter_once_free {s : TimerSet Name} (h : Idle s) {t : Timer Name} (ht : t ∈ s.timers)
    (hrep : t.repeating = false) (now : Millis) :
    (∀ u ∈ (s.enter now t).timers, u.id ≠ t.id) ∧ (s.enter now t).contains t.name = false := by
  rw [enter_once now hrep]
  refine ⟨fun u hu => (mem_erase.mp hu).2, ?_⟩
  by_contra hcontains
  obtain ⟨u, hu, hname⟩ := TimerSet.contains_iff.mp (by simpa using hcontains)
  obtain ⟨hmem, hne⟩ := mem_erase.mp (TimerSet.mem_live.mp hu).1
  have hnames := h.wellFormed.names
  rw [live_of_not_pending h.pending] at hnames
  exact hne (congrArg Timer.id (List.inj_on_of_nodup_map hnames hmem ht hname))

theorem add_free {s : TimerSet Name} {name : Name} (h : s.contains name = false)
    (intervalMs now : Millis) :
    (s.addPeriodic name intervalMs now).2 = true ∧ (s.addOnce name intervalMs now).2 = true := by
  unfold TimerSet.addPeriodic TimerSet.addOnce
  rw [h]
  exact ⟨rfl, rfl⟩

/-! ## Calls between two passes -/

theorem contains_idle {s : TimerSet Name} (h : Idle s) {name : Name} :
    s.contains name = true ↔ ∃ t ∈ s.timers, t.name = name := by
  rw [TimerSet.contains_iff, live_of_not_pending h.pending]

omit [DecidableEq Name] in
theorem name_unique {s : TimerSet Name} (h : Idle s) {t u : Timer Name} (ht : t ∈ s.timers)
    (hu : u ∈ s.timers) (hname : t.name = u.name) :
    t = u := by
  have hnames := h.wellFormed.names
  rw [live_of_not_pending h.pending] at hnames
  exact List.inj_on_of_nodup_map hnames ht hu hname

theorem idle_addOnce {s : TimerSet Name} (h : Idle s) (name : Name) (delayMs now : Millis) :
    Idle (s.addOnce name delayMs now).1 := idle_change h (s.addOnce_change name delayMs now)

theorem idle_cancel {s : TimerSet Name} (h : Idle s) (name : Name) : Idle (s.cancel name).1 :=
  idle_change h (s.cancel_change name)

theorem idle_erase {s : TimerSet Name} (h : Idle s) {t : Timer Name} (ht : t ∈ s.timers) :
    Idle (s.erase t.id) := by
  apply idle_change h (.erased t ?_ ?_)
  · rw [live_of_not_pending h.pending]
    exact ht
  · rw [h.firingId]
    exact (h.wellFormed.numbered t ht).1.ne'

theorem mem_addOnce {s : TimerSet Name} {name : Name} {delayMs now : Millis} {t : Timer Name} :
    t ∈ (s.addOnce name delayMs now).1.timers ↔
      t ∈ s.timers ∨ s.contains name = false ∧
      t = ⟨name, delayMs, now + delayMs, now, false, s.nextId⟩ := by
  unfold TimerSet.addOnce
  cases s.contains name with
  | true => simp
  | false =>
    change t ∈ s.timers ++ [_] ↔ _
    rw [List.mem_append, List.mem_singleton]
    exact or_congr_right ⟨fun heq => ⟨rfl, heq⟩, And.right⟩

theorem mem_cancel {s : TimerSet Name} (h : Idle s) {name : Name} {t : Timer Name} :
    t ∈ (s.cancel name).1.timers ↔ t ∈ s.timers ∧ t.name ≠ name := by
  have hlive := live_of_not_pending h.pending
  unfold TimerSet.cancel
  cases hfind : s.find name with
  | none =>
    have hfree : ∀ u ∈ s.timers, u.name ≠ name := by
      intro u hu hname
      have hcontains := (contains_idle h).mpr ⟨u, hu, hname⟩
      rw [TimerSet.contains, hfind] at hcontains
      cases hcontains
    exact ⟨fun ht => ⟨ht, hfree t ht⟩, And.left⟩
  | some u =>
    obtain ⟨hu, hname⟩ := TimerSet.find_some hfind
    rw [hlive] at hu
    have hne : u.id ≠ s.firingId := by
      rw [h.firingId]
      exact (h.wellFormed.numbered u hu).1.ne'
    dsimp only
    rw [if_neg hne, mem_erase]
    constructor
    · rintro ⟨ht, hid⟩
      exact ⟨ht, fun heq => hid (congrArg Timer.id (name_unique h ht hu (heq.trans hname.symm)))⟩
    · rintro ⟨ht, hother⟩
      exact ⟨ht,
        fun hid => hother ((congrArg Timer.name (id_unique h.wellFormed ht hu hid)).trans hname)⟩

/-! ## What a pass calls -/

/-- The callbacks of a pass are those of the timers due at its start, in the order they were added,
save for those an earlier callback cancelled. -/
theorem runExpired_calls {s : TimerSet Name} (h : Idle s) (now : Millis)
    (onTick : World → TimerTick Name → Program Name World) (world : World) :
    (s.runExpired now onTick world).calls.map Call.id =
      (s.dueIds now).filter fun id =>
        decide (∀ c ∈ (s.runExpired now onTick world).calls, c.id < id →
          id ∉ c.outcome.cancelled) := by
  have hpass := runExpired_passed h now onTick world
  apply hpass.order.eq_of_mem_iff ((dueIds_order h.wellFormed now).sublist List.filter_sublist)
  intro id
  rw [hpass.called, List.mem_filter, decide_eq_true_eq]
  constructor
  · rintro ⟨hdue, _, hcancel⟩
    exact ⟨hdue, hcancel⟩
  · rintro ⟨hdue, hcancel⟩
    obtain ⟨t, ht, _, hid⟩ := mem_dueIds.mp hdue
    exact ⟨hdue, ⟨t, ht, hid⟩, hcancel⟩

theorem runExpired_not_due {s : TimerSet Name} (h : Idle s) (now : Millis)
    (onTick : World → TimerTick Name → Program Name World) (world : World) {u : Timer Name}
    (hu : u ∈ (s.runExpired now onTick world).set.timers) (hold : u.id < s.nextId)
    (hpos : 0 < u.intervalMs) (hwrap : now.toNat + u.intervalMs.toNat < 2 ^ 64) :
    now < u.deadline := by
  have hpass := runExpired_passed h now onTick world
  rcases (hpass.kept u hold).mp hu with ⟨hmem, hcalls, hcancel⟩ | ⟨t, _, _, _, _, rfl⟩
  · by_contra hdue
    apply hcalls
    refine (hpass.called u.id).mpr
      ⟨mem_dueIds.mpr ⟨u, hmem, ?_, rfl⟩, ⟨u, hmem, rfl⟩, fun c hc _ => hcancel c hc⟩
    exact BitVec.not_lt.mp hdue
  · change now < now + t.intervalMs
    change 0 < t.intervalMs at hpos
    change now.toNat + t.intervalMs.toNat < 2 ^ 64 at hwrap
    rw [BitVec.lt_def] at hpos ⊢
    rw [BitVec.toNat_add, Nat.mod_eq_of_lt hwrap]
    have hpos' : 0 < t.intervalMs.toNat := hpos
    omega

/-- What holds of one callback `c` of a pass, the one of the timer `t`. -/
structure Called (now : Millis) (t : Timer Name) (c : Call Name World) : Prop where
  due : t.deadline ≤ now
  tick : c.tick = ⟨t.name, now - t.lastFired⟩
  once : t.repeating = false →
    (∀ u ∈ c.found.timers, u.id ≠ t.id) ∧ c.found.contains t.name = false ∧
      ∀ intervalMs at', (c.found.addPeriodic t.name intervalMs at').2 = true ∧
        (c.found.addOnce t.name intervalMs at').2 = true
  periodic : t.repeating = true →
    t.rearm now ∈ c.found.timers ∧
      (t.id ∈ c.outcome.cancelled → ∀ u ∈ (c.outcome.set.leave t).timers, u.id ≠ t.id) ∧
      (t.id ∉ c.outcome.cancelled → t.rearm now ∈ (c.outcome.set.leave t).timers)
  after : (c.outcome.set.leave t).timers = c.outcome.set.live
  names : ∀ x ∈ c.outcome.states, (x.live.map Timer.name).Nodup

theorem callOf_called {before : TimerSet Name} (h : Idle before) (now : Millis)
    (onTick : World → TimerTick Name → Program Name World) (world : World) {t : Timer Name}
    (ht : t ∈ before.timers) (hdue : t.deadline ≤ now) :
    Called now t (callOf now onTick before world t) := by
  have hran : Ran (before.enter now t) (callOf now onTick before world t).outcome :=
    program_ran _ (enter_wellFormed h ht now)
  have hfired := callback_fired h ht now hran
  have hbound := (h.wellFormed.numbered t ht).2
  refine ⟨hdue, rfl, ?_, ?_, leave_timers h ht now hran, hran.states⟩
  · intro hrep
    obtain ⟨hgone, hfree⟩ := enter_once_free h ht hrep now
    exact ⟨hgone, hfree, fun intervalMs at' => add_free hfree intervalMs at'⟩
  · intro hrep
    refine ⟨(mem_enter_repeating h.wellFormed ht hrep now).mpr (.inr rfl), ?_, ?_⟩
    · intro hcancel u hu hid
      have hu' : u.id < before.nextId := by omega
      rcases (hfired.kept u hu').mp hu with ⟨_, hne, _⟩ | ⟨_, hnot, _⟩
      · exact hne hid
      · exact hnot hcancel
    · intro hnot
      exact (hfired.kept (t.rearm now) hbound).mpr (.inr ⟨hrep, hnot, rfl⟩)

/-- One pass over the timers, whatever its callbacks add and cancel. -/
theorem run_expired_semantics {s : TimerSet Name} (h : Reachable s) (now : Millis)
    (onTick : World → TimerTick Name → Program Name World) (world : World) :
    (s.timers.map Timer.id).Pairwise (· < ·) ∧
    (s.runExpired now onTick world).calls.map Call.id =
      ((s.timers.filter fun t => decide (t.deadline ≤ now)).map Timer.id).filter
        (fun id => decide
          (∀ c ∈ (s.runExpired now onTick world).calls, c.id < id → id ∉ c.outcome.cancelled)) ∧
    (∀ c ∈ (s.runExpired now onTick world).calls, ∃ t ∈ s.timers, t.id = c.id ∧ Called now t c) ∧
    (∀ t ∈ s.timers, t.repeating = true →
      t.id ∈ (s.runExpired now onTick world).calls.map Call.id →
      ((∀ c ∈ (s.runExpired now onTick world).calls, t.id ∉ c.outcome.cancelled) ↔
        t.rearm now ∈ (s.runExpired now onTick world).set.timers)) ∧
    ((s.runExpired now onTick world).set.live.map Timer.name).Nodup ∧
    (∀ u ∈ (s.runExpired now onTick world).set.timers, (∃ t ∈ s.timers, t.id = u.id) →
      0 < u.intervalMs → now.toNat + u.intervalMs.toNat < 2 ^ 64 → now < u.deadline) := by
  have hidle := reachable_idle h
  have hwf := hidle.wellFormed
  have hpass := runExpired_passed hidle now onTick world
  refine ⟨hwf.order, runExpired_calls hidle now onTick world, ?_, ?_,
    hpass.idle.wellFormed.names, ?_⟩
  · intro c hc
    obtain ⟨before, w, t, hbefore, hs, hb, hdue, rfl⟩ :=
      fireAll_call hidle world (dueIds_order hwf now) (dueIds_lt hwf now) c hc
    obtain ⟨u, hu, hdeadline, hid⟩ := mem_dueIds.mp hdue
    obtain rfl := id_unique hwf hu hs hid
    exact ⟨u, hs, rfl, callOf_called hbefore now onTick w hb hdeadline⟩
  · intro t ht hrep hcalled
    have hbound := (hwf.numbered t ht).2
    constructor
    · intro hcancel
      exact (hpass.kept (t.rearm now) hbound).mpr (.inr ⟨t, ht, hrep, hcalled, hcancel, rfl⟩)
    · intro hmem
      rcases (hpass.kept (t.rearm now) hbound).mp
        hmem with ⟨_, hnot, _⟩ | ⟨v, hv, _, _, hcancel, heq⟩
      · exact absurd hcalled hnot
      · have hid : v.id = t.id := (congrArg Timer.id heq).symm
        rw [← hid]
        exact hcancel
  · rintro u hu ⟨t, ht, hid⟩ hpos hwrap
    have hbound := (hwf.numbered t ht).2
    exact runExpired_not_due hidle now onTick world hu (by omega) hpos hwrap

/-- A periodic timer that cancels itself and takes its own name again, once, beside one due later.
-/
def renewTwice (world : ℕ) (tick : TimerTick ℕ) : Program ℕ ℕ :=
  .cancel tick.name fun _ => .addOnce tick.name 0 9 fun added =>
    .done (if added then world + 1 else world)

def twoTimers : TimerSet ℕ := ((empty.addPeriodic 1 5 0).1.addPeriodic 2 20 0).1

theorem twoTimers_pass :
    (twoTimers.runExpired 9 renewTwice 0).world = 1 ∧
      (twoTimers.runExpired 9 renewTwice 0).calls.map Call.id = [1] ∧
      (twoTimers.runExpired 9 renewTwice 0).set.timers.map Timer.id = [2, 3] ∧
      ((twoTimers.runExpired 9 renewTwice 0).set.live.map Timer.name).Nodup :=
  ⟨by decide +kernel, by decide +kernel, by decide +kernel,
    (run_expired_semantics (.addPeriodic 2 20 0 (.addPeriodic 1 5 0 .empty)) 9
      renewTwice 0).2.2.2.2.1⟩

/-- With an interval near the top of the clock the next deadline wraps below the reading of the
clock, so that the timer is due again at once. -/
theorem rearm_wraps :
    ∃ s : TimerSet ℕ, Reachable s ∧
      ∃ u ∈ (s.runExpired 5 (fun world _ => .done world) ()).set.timers,
        (∃ t ∈ s.timers, t.id = u.id) ∧ 0 < u.intervalMs ∧ u.deadline ≤ 5 := by
  refine ⟨(empty.addPeriodic 1 (BitVec.allOnes 64) 5).1, .addPeriodic 1 _ 5 .empty, ?_⟩
  refine ⟨⟨1, BitVec.allOnes 64, 4, 5, true, 1⟩, ?_, ?_, ?_, ?_⟩ <;> decide +kernel

end Sangtachi.Timers
