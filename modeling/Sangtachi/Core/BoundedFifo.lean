import Mathlib.Data.List.Basic
import Mathlib.Data.List.Infix
import Mathlib.Tactic.Common

/-! # Bounded queues

A first-in first-out queue of bounded length, by the answers it may give: one call at a time, from
the empty queue on. An implementation that answers so, whatever its own steps are, neither loses
nor repeats a value. -/
namespace Sangtachi.BoundedFifo

inductive Answer (α : Type*) where
  | push (value : α) (accepted : Bool)
  | pop (value : Option α)
  deriving Repr, DecidableEq

variable {α : Type*}

/-- What a call may answer when the queue is `q`, and the queue it leaves. -/
def Allowed (capacity : ℕ) (q : List α) : Answer α → List α → Prop
  | .push value true, q' => q.length < capacity ∧ q' = q ++ [value]
  | .push _ false, q' => q.length = capacity ∧ q' = q
  | .pop (some value), q' => q = value :: q'
  | .pop none, q' => q = [] ∧ q' = []

/-- The calls answered one after another, from the empty queue. -/
inductive Answers (capacity : ℕ) : List (Answer α) → List α → Prop
  | start : Answers capacity [] []
  | call {answers : List (Answer α)} {answer : Answer α} {q q' : List α} :
      Answers capacity answers q → Allowed capacity q answer q' →
        Answers capacity (answers ++ [answer]) q'

def pushed (answers : List (Answer α)) : List α :=
  answers.filterMap fun
    | .push value true => some value
    | _ => none

def popped (answers : List (Answer α)) : List α :=
  answers.filterMap fun
    | .pop value => value
    | _ => none

theorem pushed_append (xs ys : List (Answer α)) : pushed (xs ++ ys) = pushed xs ++ pushed ys :=
  List.filterMap_append

theorem popped_append (xs ys : List (Answer α)) : popped (xs ++ ys) = popped xs ++ popped ys :=
  List.filterMap_append

theorem answers_accounted {capacity : ℕ} {answers : List (Answer α)} {q : List α}
    (h : Answers capacity answers q) : pushed answers = popped answers ++ q := by
  induction h with
  | start => rfl
  | @call answers answer q q' _ hallowed ih =>
    rw [pushed_append, popped_append, ih, List.append_assoc, List.append_assoc,
      List.append_cancel_left_eq]
    rcases answer with ⟨value, _ | _⟩ | _ | value
    · rw [hallowed.2]
      exact List.append_nil q
    · rw [hallowed.2]
      rfl
    · rw [hallowed.1, hallowed.2]
      rfl
    · change q = value :: q' at hallowed
      rw [hallowed]
      exact List.append_nil _

theorem answers_fifo {capacity : ℕ} {answers : List (Answer α)} {q : List α}
    (h : Answers capacity answers q) : popped answers <+: pushed answers :=
  ⟨q, (answers_accounted h).symm⟩

end Sangtachi.BoundedFifo
