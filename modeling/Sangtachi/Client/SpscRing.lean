import Sangtachi.Core.BoundedFifo
import Mathlib.Logic.Function.Basic
import Mathlib.Data.Int.ModEq

/-! # Single-producer, single-consumer ring

`try_push` and `try_pop` in their single loads, slot accesses and stores, which the two threads
take in any order. One slot more than the capacity stays empty, so `head == tail` means empty
and nothing else. A value that is moved from is left in a state nobody relies on: each move
names the shell it leaves. -/
namespace Sangtachi.SpscRing

open Sangtachi.BoundedFifo

variable {T : Type*} {capacity : ℕ}

/-- An index of the slots, of which there are `capacity + 1`. -/
abbrev Slot (capacity : ℕ) := Fin (capacity + 1)

def slotOf (capacity : ℕ) (i : ℕ) : Slot capacity := ⟨i % (capacity + 1), Nat.mod_lt _ (by omega)⟩

def next (i : Slot capacity) : Slot capacity := slotOf capacity (i.val + 1)

/-- Where `try_push` stands; `arg` is the value it was called with. -/
inductive Producer (T : Type*) (capacity : ℕ) where
  | idle
  | called (arg : T)
  | loaded (arg : T) (tail : Slot capacity)
  | writing (arg : T) (tail next : Slot capacity)
  | storing (arg : T) (next : Slot capacity)

/-- Where `try_pop` stands. -/
inductive Consumer (T : Type*) (capacity : ℕ) where
  | idle
  | called
  | loaded (head : Slot capacity)
  | taking (head : Slot capacity)
  | clearing (head : Slot capacity) (out : T)
  | storing (head : Slot capacity) (out : T)

structure State (T : Type*) (capacity : ℕ) where
  slots : Slot capacity → T
  head : Slot capacity
  tail : Slot capacity
  producer : Producer T capacity
  consumer : Consumer T capacity
  /-- The object the producer handed to `try_push`. -/
  value : T

inductive Event (T : Type*) where
  | callPush (arg : T)
  | loadOwnTail
  | loadHead
  | writeSlot (shell : T)
  | storeTail
  | callPop
  | loadOwnHead
  | loadTail
  | takeSlot (shell : T)
  | clearSlot
  | storeHead

def initial [Inhabited T] : State T capacity :=
  ⟨fun _ => default, slotOf capacity 0, slotOf capacity 0, .idle, .idle, default⟩

/-- One step of one thread, with the answer of the call when the step ends it. -/
def step [Inhabited T] (s : State T capacity) :
    Event T → Option (State T capacity × Option (Answer T))
  | .callPush arg =>
    match s.producer with
    | .idle => some ({ s with producer := .called arg, value := arg }, none)
    | _ => none
  | .loadOwnTail =>
    match s.producer with
    | .called arg => some ({ s with producer := .loaded arg s.tail }, none)
    | _ => none
  | .loadHead =>
    match s.producer with
    | .loaded arg tail =>
      if next tail = s.head then some ({ s with producer := .idle }, some (.push arg false))
      else some ({ s with producer := .writing arg tail (next tail) }, none)
    | _ => none
  | .writeSlot shell =>
    match s.producer with
    | .writing arg tail next =>
      some ({ s with
        slots := Function.update s.slots tail s.value
        value := shell
        producer := .storing arg next }, none)
    | _ => none
  | .storeTail =>
    match s.producer with
    | .storing arg next => some ({ s with tail := next, producer := .idle }, some (.push arg true))
    | _ => none
  | .callPop =>
    match s.consumer with
    | .idle => some ({ s with consumer := .called }, none)
    | _ => none
  | .loadOwnHead =>
    match s.consumer with
    | .called => some ({ s with consumer := .loaded s.head }, none)
    | _ => none
  | .loadTail =>
    match s.consumer with
    | .loaded head =>
      if head = s.tail then some ({ s with consumer := .idle }, some (.pop none))
      else some ({ s with consumer := .taking head }, none)
    | _ => none
  | .takeSlot shell =>
    match s.consumer with
    | .taking head =>
      some ({ s with
        slots := Function.update s.slots head shell
        consumer := .clearing head (s.slots head) }, none)
    | _ => none
  | .clearSlot =>
    match s.consumer with
    | .clearing head out =>
      some ({ s with
        slots := Function.update s.slots head default
        consumer := .storing head out }, none)
    | _ => none
  | .storeHead =>
    match s.consumer with
    | .storing head out =>
      some ({ s with head := next head, consumer := .idle }, some (.pop (some out)))
    | _ => none

/-- The number of elements, as `size` computes it from the two indices. -/
def size (s : State T capacity) : ℕ := (s.tail.val + (capacity + 1) - s.head.val) % (capacity + 1)

def Producer.access : Producer T capacity → Option (Slot capacity)
  | .writing _ tail _ => some tail
  | _ => none

def Consumer.access : Consumer T capacity → Option (Slot capacity)
  | .taking head => some head
  | .clearing head _ => some head
  | _ => none

/-! ## The invariant -/

theorem slotOf_inj {a b : ℕ} (hle : a ≤ b) (hlt : b ≤ a + capacity)
    (h : slotOf capacity a = slotOf capacity b) : a = b := by
  have hmod : a % (capacity + 1) = b % (capacity + 1) := congrArg Fin.val h
  have hdvd := (Nat.modEq_iff_dvd' hle).mp hmod
  have hzero := Nat.eq_zero_of_dvd_of_lt hdvd (by omega)
  omega

@[simp] theorem next_slotOf (i : ℕ) : next (slotOf capacity i) = slotOf capacity (i + 1) := by
  apply Fin.ext
  exact Nat.mod_add_mod i (capacity + 1) 1

def Producer.Ready (s : State T capacity) (q : List T) : Prop :=
  match s.producer with
  | .idle => True
  | .called arg => s.value = arg
  | .loaded arg tail => tail = s.tail ∧ s.value = arg
  | .writing arg tail succ =>
    tail = s.tail ∧ succ = next s.tail ∧ s.value = arg ∧ q.length < capacity
  | .storing arg succ => succ = next s.tail ∧ s.slots s.tail = arg ∧ q.length < capacity

def Consumer.Ready (s : State T capacity) (q : List T) : Prop :=
  match s.consumer with
  | .idle => True
  | .called => True
  | .loaded head => head = s.head
  | .taking head => head = s.head ∧ q ≠ []
  | .clearing head out => head = s.head ∧ q.head? = some out
  | .storing head out => head = s.head ∧ q.head? = some out

/-- The value at the head has left its slot. -/
def Consumer.Took : Consumer T capacity → Prop
  | .clearing _ _ => True
  | .storing _ _ => True
  | _ => False

/-- The ring stands for the queue `q`, whose first value was the `start`-th pushed. -/
structure Represents (s : State T capacity) (start : ℕ) (q : List T) : Prop where
  bounded : q.length ≤ capacity
  head : s.head = slotOf capacity start
  tail : s.tail = slotOf capacity (start + q.length)
  slots : ∀ k value, q[k]? = some value → (k = 0 → ¬ s.consumer.Took) →
    s.slots (slotOf capacity (start + k)) = value
  producer : Producer.Ready s q
  consumer : Consumer.Ready s q

theorem represents_initial [Inhabited T] : Represents (initial : State T capacity) 0 [] :=
  ⟨Nat.zero_le _, rfl, rfl, fun k value h => by simp at h, trivial, trivial⟩

/-- The producer's next slot holds the consumer's index exactly when the queue is full. -/
theorem represents_full {s : State T capacity} {start : ℕ} {q : List T} (h : Represents s start q) :
    next s.tail = s.head ↔ q.length = capacity := by
  have hbounded := h.bounded
  rw [h.tail, h.head, next_slotOf]
  constructor
  · intro heq
    by_contra hne
    have := slotOf_inj (by omega) (by omega) heq.symm
    omega
  · intro heq
    apply Fin.ext
    change (start + q.length + 1) % (capacity + 1) = start % (capacity + 1)
    rw [heq, Nat.add_assoc, Nat.add_mod_right]

theorem represents_empty {s : State T capacity} {start : ℕ} {q : List T}
    (h : Represents s start q) :
    s.head = s.tail ↔ q = [] := by
  have hbounded := h.bounded
  rw [h.tail, h.head]
  constructor
  · intro heq
    have := slotOf_inj (by omega) (by omega) heq
    exact List.length_eq_zero_iff.mp (by omega)
  · rintro rfl
    rfl

theorem distance_mod {n a b : ℕ} (ha : a < n) (hb : b < n) : ((a + b) % n + n - a) % n = b := by
  by_cases hwrap : a + b < n
  · rw [Nat.mod_eq_of_lt hwrap, show a + b + n - a = b + n by
      omega, Nat.add_mod_right, Nat.mod_eq_of_lt hb]
  · have hsum : (a + b) % n = a + b - n := by
      rw [Nat.mod_eq_sub_mod (by omega)]
      exact Nat.mod_eq_of_lt (by omega)
    rw [hsum, show a + b - n + n - a = b by omega, Nat.mod_eq_of_lt hb]

/-- `size` counts the queue. -/
theorem represents_size {s : State T capacity} {start : ℕ} {q : List T} (h : Represents s start q) :
    size s = q.length := by
  have hbounded := h.bounded
  have hhead : s.head.val = start % (capacity + 1) := congrArg Fin.val h.head
  have htail : s.tail.val = (start + q.length) % (capacity + 1) := congrArg Fin.val h.tail
  have hlt := Nat.mod_lt start (show 0 < capacity + 1 by omega)
  rw [size, hhead, htail, ← Nat.mod_add_mod start (capacity + 1)]
  exact distance_mod hlt (by omega)

theorem slotOf_ne_tail {s : State T capacity} {start k : ℕ} {q : List T} (h : Represents s start q)
    (hk : k < q.length) :
    slotOf capacity (start + k) ≠ s.tail := by
  intro heq
  have hbounded := h.bounded
  rw [h.tail] at heq
  have := slotOf_inj (by omega) (by omega) heq
  omega

theorem update_head_slots {s : State T capacity} {start k : ℕ} {q : List T} {value : T}
    (h : Represents s start q) (shell : T)
    (hk : q[k]? = some value) (hpos : k ≠ 0) :
    Function.update s.slots s.head shell (slotOf capacity (start + k)) = value := by
  have hklt : k < q.length := (List.getElem?_eq_some_iff.mp hk).1
  have hbounded := h.bounded
  rw [Function.update_of_ne]
  · exact h.slots k value hk fun hzero => absurd hzero hpos
  · intro heq
    rw [h.head] at heq
    have := slotOf_inj (by omega) (by omega) heq.symm
    omega

theorem producer_update_head {s : State T capacity} {start : ℕ} {q : List T}
    (h : Represents s start q) (hne : q ≠ []) (shell : T) :
    Producer.Ready { s with slots := Function.update s.slots s.head shell } q := by
  have hready := h.producer
  unfold Producer.Ready at hready ⊢
  dsimp only
  cases hpc : s.producer with
  | idle => trivial
  | called arg =>
    rw [hpc] at hready
    exact hready
  | loaded arg tail =>
    rw [hpc] at hready
    exact hready
  | writing arg tail succ =>
    rw [hpc] at hready
    exact hready
  | storing arg succ =>
    rw [hpc] at hready
    refine ⟨hready.1, ?_, hready.2.2⟩
    rw [Function.update_of_ne]
    · exact hready.2.1
    · intro heq
      exact hne ((represents_empty h).mp heq.symm)

/-! ## One step -/

/-- What a step does to the queue: an answer as the queue allows it, or nothing. -/
def Refines (s' : State T capacity) (q : List T) (answer : Option (Answer T)) : Prop :=
  ∃ start' q', Represents s' start' q' ∧
    (answer = none → q' = q) ∧ ∀ a, answer = some a → Allowed capacity q a q'

theorem refines_silent {s' : State T capacity} (start : ℕ) {q : List T}
    (h : Represents s' start q) :
    Refines s' q none :=
  ⟨start, q, h, fun _ => rfl, fun _ ha => by cases ha⟩

theorem refines_answer {s' : State T capacity} (start : ℕ) {q : List T} (q' : List T) {a : Answer T}
    (h : Represents s' start q') (hallowed : Allowed capacity q a q') : Refines s' q (some a) := by
  refine ⟨start, q', h, ?_, ?_⟩
  · intro hnone
    cases hnone
  · intro b hb
    cases hb
    exact hallowed

section Steps

variable [Inhabited T] {s s' : State T capacity} {start : ℕ} {q : List T}
  {answer : Option (Answer T)}

theorem callPush_refines {arg : T} (h : Represents s start q)
    (hstep : step s (.callPush arg) = some (s', answer)) : Refines s' q answer := by
  dsimp only [step] at hstep
  split at hstep
  · cases hstep
    apply refines_silent start
    exact ⟨h.bounded, h.head, h.tail, h.slots, rfl, h.consumer⟩
  · cases hstep

theorem loadOwnTail_refines (h : Represents s start q)
    (hstep : step s .loadOwnTail = some (s', answer)) : Refines s' q answer := by
  dsimp only [step] at hstep
  split at hstep
  case h_1 arg hpc =>
    cases hstep
    have hready := h.producer
    rw [Producer.Ready, hpc] at hready
    apply refines_silent start
    exact ⟨h.bounded, h.head, h.tail, h.slots, ⟨rfl, hready⟩, h.consumer⟩
  case h_2 => cases hstep

theorem loadHead_refines (h : Represents s start q)
    (hstep : step s .loadHead = some (s', answer)) : Refines s' q answer := by
  dsimp only [step] at hstep
  split at hstep
  case h_1 arg tail hpc =>
    have hready := h.producer
    rw [Producer.Ready, hpc] at hready
    obtain ⟨rfl, hvalue⟩ := hready
    have hfull := represents_full h
    by_cases hnext : next s.tail = s.head
    · rw [if_pos hnext] at hstep
      cases hstep
      apply refines_answer start q
      · exact ⟨h.bounded, h.head, h.tail, h.slots, trivial, h.consumer⟩
      · exact ⟨hfull.mp hnext, rfl⟩
    · rw [if_neg hnext] at hstep
      cases hstep
      have hne : q.length ≠ capacity := fun hlen => hnext (hfull.mpr hlen)
      have hlt : q.length < capacity := by
        have := h.bounded
        omega
      apply refines_silent start
      exact ⟨h.bounded, h.head, h.tail, h.slots, ⟨rfl, rfl, hvalue, hlt⟩, h.consumer⟩
  case h_2 => cases hstep

theorem writeSlot_refines {shell : T} (h : Represents s start q)
    (hstep : step s (.writeSlot shell) = some (s', answer)) : Refines s' q answer := by
  dsimp only [step] at hstep
  split at hstep
  case h_1 arg tail succ hpc =>
    have hready := h.producer
    rw [Producer.Ready, hpc] at hready
    obtain ⟨rfl, hnext, hvalue, hlt⟩ := hready
    cases hstep
    apply refines_silent start
    refine ⟨h.bounded, h.head, h.tail, ?_, ⟨hnext, ?_, hlt⟩, h.consumer⟩
    · intro k value hk htook
      have hklt : k < q.length := (List.getElem?_eq_some_iff.mp hk).1
      change Function.update s.slots s.tail s.value _ = value
      rw [Function.update_of_ne (slotOf_ne_tail h hklt)]
      exact h.slots k value hk htook
    · change Function.update s.slots s.tail s.value s.tail = arg
      rw [Function.update_self, hvalue]
  case h_2 => cases hstep

theorem storeTail_refines (h : Represents s start q)
    (hstep : step s .storeTail = some (s', answer)) : Refines s' q answer := by
  dsimp only [step] at hstep
  split at hstep
  case h_1 arg succ hpc =>
    have hready := h.producer
    rw [Producer.Ready, hpc] at hready
    obtain ⟨rfl, harg, hlt⟩ := hready
    cases hstep
    apply refines_answer start (q ++ [arg])
    · refine ⟨?_, h.head, ?_, ?_, trivial, ?_⟩
      · rw [List.length_append, List.length_singleton]
        exact hlt
      · change next s.tail = _
        rw [h.tail, next_slotOf, List.length_append, List.length_singleton, Nat.add_assoc]
      · intro k value hk htook
        by_cases hklt : k < q.length
        · rw [List.getElem?_append_left hklt] at hk
          exact h.slots k value hk htook
        · obtain ⟨hlen, hval⟩ := List.getElem?_eq_some_iff.mp hk
          rw [List.length_append, List.length_singleton] at hlen
          obtain rfl : k = q.length := by omega
          rw [List.getElem_concat_length rfl] at hval
          change s.slots _ = value
          rw [← h.tail, harg, hval]
      · have hconsumer := h.consumer
        unfold Consumer.Ready at hconsumer ⊢
        dsimp only
        cases hc : s.consumer with
        | idle => trivial
        | called => trivial
        | loaded head =>
          rw [hc] at hconsumer
          exact hconsumer
        | taking head =>
          rw [hc] at hconsumer
          exact ⟨hconsumer.1, by simp⟩
        | clearing head out =>
          rw [hc] at hconsumer
          exact ⟨hconsumer.1, by rw [List.head?_append, hconsumer.2]; rfl⟩
        | storing head out =>
          rw [hc] at hconsumer
          exact ⟨hconsumer.1, by rw [List.head?_append, hconsumer.2]; rfl⟩
    · exact ⟨hlt, rfl⟩
  case h_2 => cases hstep

theorem callPop_refines (h : Represents s start q)
    (hstep : step s .callPop = some (s', answer)) : Refines s' q answer := by
  dsimp only [step] at hstep
  split at hstep
  case h_1 hpc =>
    cases hstep
    apply refines_silent start
    refine ⟨h.bounded, h.head, h.tail, ?_, h.producer, trivial⟩
    intro k value hk _
    exact h.slots k value hk (by simp [hpc, Consumer.Took])
  case h_2 => cases hstep

theorem loadOwnHead_refines (h : Represents s start q)
    (hstep : step s .loadOwnHead = some (s', answer)) : Refines s' q answer := by
  dsimp only [step] at hstep
  split at hstep
  case h_1 hpc =>
    cases hstep
    apply refines_silent start
    refine ⟨h.bounded, h.head, h.tail, ?_, h.producer, rfl⟩
    intro k value hk _
    exact h.slots k value hk (by simp [hpc, Consumer.Took])
  case h_2 => cases hstep

theorem loadTail_refines (h : Represents s start q)
    (hstep : step s .loadTail = some (s', answer)) : Refines s' q answer := by
  dsimp only [step] at hstep
  split at hstep
  case h_1 head hpc =>
    have hready := h.consumer
    rw [Consumer.Ready, hpc] at hready
    obtain rfl := hready
    have hempty := represents_empty h
    have hslots : ∀ k value, q[k]? = some value → s.slots (slotOf capacity (start + k)) = value :=
      fun k value hk => h.slots k value hk (by simp [hpc, Consumer.Took])
    by_cases heq : s.head = s.tail
    · rw [if_pos heq] at hstep
      cases hstep
      apply refines_answer start q
      · exact ⟨h.bounded, h.head, h.tail, fun k value hk _ => hslots k value hk,
          h.producer, trivial⟩
      · exact ⟨hempty.mp heq, hempty.mp heq⟩
    · rw [if_neg heq] at hstep
      cases hstep
      apply refines_silent start
      refine ⟨h.bounded, h.head, h.tail, fun k value hk _ => hslots k value hk, h.producer, rfl, ?_⟩
      intro hq
      exact heq (hempty.mpr hq)
  case h_2 => cases hstep

theorem takeSlot_refines {shell : T} (h : Represents s start q)
    (hstep : step s (.takeSlot shell) = some (s', answer)) : Refines s' q answer := by
  dsimp only [step] at hstep
  split at hstep
  case h_1 head hpc =>
    have hready := h.consumer
    rw [Consumer.Ready, hpc] at hready
    obtain ⟨rfl, hne⟩ := hready
    cases hstep
    apply refines_silent start
    refine ⟨h.bounded, h.head, h.tail, ?_, producer_update_head h hne shell, rfl, ?_⟩
    · intro k value hk htook
      exact update_head_slots h shell hk fun hzero => htook hzero trivial
    · cases q with
      | nil => exact absurd rfl hne
      | cons first rest =>
        have hfirst := h.slots 0 first rfl (by simp [hpc, Consumer.Took])
        rw [Nat.add_zero, ← h.head] at hfirst
        rw [hfirst]
        rfl
  case h_2 => cases hstep

theorem clearSlot_refines (h : Represents s start q)
    (hstep : step s .clearSlot = some (s', answer)) : Refines s' q answer := by
  dsimp only [step] at hstep
  split at hstep
  case h_1 head out hpc =>
    have hready := h.consumer
    rw [Consumer.Ready, hpc] at hready
    obtain ⟨rfl, hout⟩ := hready
    have hne : q ≠ [] := by
      rintro rfl
      cases hout
    cases hstep
    apply refines_silent start
    refine ⟨h.bounded, h.head, h.tail, ?_, producer_update_head h hne default, rfl, hout⟩
    intro k value hk htook
    exact update_head_slots h default hk fun hzero => htook hzero trivial
  case h_2 => cases hstep

theorem storeHead_refines (h : Represents s start q)
    (hstep : step s .storeHead = some (s', answer)) : Refines s' q answer := by
  dsimp only [step] at hstep
  split at hstep
  case h_1 head out hpc =>
    have hready := h.consumer
    rw [Consumer.Ready, hpc] at hready
    obtain ⟨rfl, hout⟩ := hready
    cases q with
    | nil => cases hout
    | cons first rest =>
      cases hout
      cases hstep
      have hbounded := h.bounded
      rw [List.length_cons] at hbounded
      apply refines_answer (start + 1) rest
      · refine ⟨by omega, ?_, ?_, ?_, ?_, trivial⟩
        · change next s.head = _
          rw [h.head, next_slotOf]
        · change s.tail = _
          rw [h.tail, List.length_cons]
          congr 1
          omega
        · intro k value hk _
          change s.slots _ = value
          rw [show start + 1 + k = start + (k + 1) by omega]
          exact h.slots (k + 1) value hk fun hzero => by omega
        · have hproducer := h.producer
          unfold Producer.Ready at hproducer ⊢
          dsimp only
          cases hp : s.producer with
          | idle => trivial
          | called arg =>
            rw [hp] at hproducer
            exact hproducer
          | loaded arg tail =>
            rw [hp] at hproducer
            exact hproducer
          | writing arg tail succ =>
            rw [hp] at hproducer
            exact ⟨hproducer.1, hproducer.2.1, hproducer.2.2.1, by omega⟩
          | storing arg succ =>
            rw [hp] at hproducer
            exact ⟨hproducer.1, hproducer.2.1, by omega⟩
      · rfl
  case h_2 => cases hstep

theorem step_refines {e : Event T} (h : Represents s start q)
    (hstep : step s e = some (s', answer)) :
    Refines s' q answer := by
  cases e with
  | callPush arg => exact callPush_refines h hstep
  | loadOwnTail => exact loadOwnTail_refines h hstep
  | loadHead => exact loadHead_refines h hstep
  | writeSlot shell => exact writeSlot_refines h hstep
  | storeTail => exact storeTail_refines h hstep
  | callPop => exact callPop_refines h hstep
  | loadOwnHead => exact loadOwnHead_refines h hstep
  | loadTail => exact loadTail_refines h hstep
  | takeSlot shell => exact takeSlot_refines h hstep
  | clearSlot => exact clearSlot_refines h hstep
  | storeHead => exact storeHead_refines h hstep

end Steps

/-! ## Runs -/

/-- The steps taken one after another, with the answers they gave. -/
def run [Inhabited T] : State T capacity → List (Event T) →
    Option (State T capacity × List (Answer T))
  | s, [] => some (s, [])
  | s, e :: events =>
    match step s e with
    | none => none
    | some (s', answer) =>
      match run s' events with
      | none => none
      | some (final, answers) => some (final, answer.toList ++ answers)

theorem run_refines [Inhabited T] {events : List (Event T)} {s final : State T capacity} {start : ℕ}
    {q : List T} {before answers : List (Answer T)} (h : Represents s start q)
    (hbefore : Answers capacity before q) (hrun : run s events = some (final, answers)) :
    ∃ start' q', Represents final start' q' ∧ Answers capacity (before ++ answers) q' := by
  induction events generalizing s start q before answers with
  | nil =>
    cases hrun
    rw [List.append_nil]
    exact ⟨start, q, h, hbefore⟩
  | cons e events ih =>
    rw [run] at hrun
    split at hrun
    case h_1 => cases hrun
    case h_2 s' answer hstep =>
      split at hrun
      case h_1 => cases hrun
      case h_2 final' rest hrest =>
        cases hrun
        obtain ⟨start', q', hnext, hsilent, hanswer⟩ := step_refines h hstep
        rw [← List.append_assoc]
        apply ih hnext _ hrest
        cases answer with
        | none =>
          rw [hsilent rfl, Option.toList_none, List.append_nil]
          exact hbefore
        | some a => exact .call hbefore (hanswer a rfl)

theorem represents_apart {s : State T capacity} {start : ℕ} {q : List T} (h : Represents s start q)
    (slot : Slot capacity) : ¬ (s.producer.access = some slot ∧ s.consumer.access = some slot) := by
  rintro ⟨hproducer, hconsumer⟩
  have htail : slot = s.tail := by
    have hready := h.producer
    unfold Producer.Ready at hready
    cases hp : s.producer with
    | writing arg tail succ =>
      rw [hp] at hready hproducer
      cases hproducer
      exact hready.1
    | _ =>
      rw [hp] at hproducer
      cases hproducer
  have hhead : slot = s.head ∧ q ≠ [] := by
    have hready := h.consumer
    unfold Consumer.Ready at hready
    cases hc : s.consumer with
    | taking head =>
      rw [hc] at hready hconsumer
      cases hconsumer
      exact hready
    | clearing head out =>
      rw [hc] at hready hconsumer
      cases hconsumer
      refine ⟨hready.1, ?_⟩
      rintro rfl
      cases hready.2
    | _ =>
      rw [hc] at hconsumer
      cases hconsumer
  exact hhead.2 ((represents_empty h).mp (hhead.1.symm.trans htail))

theorem refused_step [Inhabited T] {s s' : State T capacity} {e : Event T} {arg : T}
    (hstep : step s e = some (s', some (.push arg false))) :
    ∃ tail, s.producer = .loaded arg tail ∧ next tail = s.head ∧
      s' = { s with producer := .idle } := by
  cases e with
  | loadHead =>
    dsimp only [step] at hstep
    split at hstep
    case h_1 arg' tail hpc =>
      split_ifs at hstep with hnext
      · cases hstep
        exact ⟨tail, hpc, hnext, rfl⟩
      · cases hstep
    case h_2 => cases hstep
  | loadTail =>
    dsimp only [step] at hstep
    split at hstep
    · split_ifs at hstep <;> cases hstep
    · cases hstep
  | _ =>
    dsimp only [step] at hstep
    split at hstep <;> cases hstep

theorem empty_step [Inhabited T] {s s' : State T capacity} {e : Event T}
    (hstep : step s e = some (s', some (.pop none))) :
    ∃ head, s.consumer = .loaded head ∧ head = s.tail := by
  cases e with
  | loadHead =>
    dsimp only [step] at hstep
    split at hstep
    · split_ifs at hstep <;> cases hstep
    · cases hstep
  | loadTail =>
    dsimp only [step] at hstep
    split at hstep
    case h_1 head hpc =>
      split_ifs at hstep with heq
      · exact ⟨head, hpc, heq⟩
      · cases hstep
    case h_2 => cases hstep
  | _ =>
    dsimp only [step] at hstep
    split at hstep <;> cases hstep

/-- In any order of their steps the two threads see a bounded queue: what was popped is the front of
what was pushed and the rest is in the ring; a push is refused in a moment of its call in which the
ring is full, and leaves its value; a pop finds nothing in a moment in which there is nothing. -/
theorem ring_bounded_fifo [Inhabited T] {events : List (Event T)} {s : State T capacity}
    {answers : List (Answer T)} (h : run initial events = some (s, answers)) :
    (∃ rest, Answers capacity answers rest ∧ pushed answers = popped answers ++ rest ∧
      rest.length = size s ∧ size s ≤ capacity) ∧
    popped answers <+: pushed answers ∧
    (∀ (e : Event T) (s' : State T capacity) (arg : T),
      step s e = some (s', some (.push arg false)) →
      (∃ tail, s.producer = .loaded arg tail) ∧ size s = capacity ∧ s'.value = arg ∧
      s'.slots = s.slots) ∧
    (∀ (e : Event T) (s' : State T capacity), step s e = some (s', some (.pop none)) →
      (∃ head, s.consumer = .loaded head) ∧ size s = 0) ∧
    ∀ slot : Slot capacity, ¬ (s.producer.access = some slot ∧ s.consumer.access = some slot) := by
  obtain ⟨start, q, hq, hanswers⟩ := run_refines represents_initial .start h
  rw [List.nil_append] at hanswers
  have hsize := represents_size hq
  refine ⟨⟨q, hanswers, answers_accounted hanswers, hsize.symm, ?_⟩, answers_fifo hanswers, ?_, ?_,
    represents_apart hq⟩
  · rw [hsize]
    exact hq.bounded
  · intro e s' arg hstep
    obtain ⟨tail, hpc, hnext, rfl⟩ := refused_step hstep
    have hready := hq.producer
    rw [Producer.Ready, hpc] at hready
    obtain ⟨rfl, hvalue⟩ := hready
    refine ⟨⟨_, hpc⟩, ?_, hvalue, rfl⟩
    rw [hsize]
    exact (represents_full hq).mp hnext
  · intro e s' hstep
    obtain ⟨head, hpc, heq⟩ := empty_step hstep
    have hready := hq.consumer
    rw [Consumer.Ready, hpc] at hready
    refine ⟨⟨head, hpc⟩, ?_⟩
    rw [hsize, (represents_empty hq).mp (hready.symm.trans heq)]
    rfl

/-- A second push is refused while a pop of the first is under way. -/
def singleSlotSteps : List (Event ℕ) :=
  [.callPush 7, .loadOwnTail, .loadHead, .writeSlot 0, .storeTail, .callPop,
    .loadOwnHead, .loadTail,
    .takeSlot 0, .callPush 8, .loadOwnTail, .loadHead, .clearSlot, .storeHead]

def singleSlotAnswers : List (Answer ℕ) := [.push 7 true, .push 8 false, .pop (some 7)]

theorem singleSlot_fifo :
    ∃ s : State ℕ 1, run initial singleSlotSteps = some (s, singleSlotAnswers) ∧
      popped singleSlotAnswers <+: pushed singleSlotAnswers := by
  obtain ⟨s, hs⟩ : ∃ s : State ℕ 1,
    run initial singleSlotSteps = some (s, singleSlotAnswers) := ⟨_, rfl⟩
  exact ⟨s, hs, (ring_bounded_fifo hs).2.1⟩

end Sangtachi.SpscRing
