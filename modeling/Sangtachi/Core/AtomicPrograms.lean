import Mathlib.Data.List.Basic
import Mathlib.Logic.Relation

/-! # Interleaved programs over atomic calls

A machine offers calls that act on a shared state without interruption. A program
makes such calls one after another and may stop with an error. Any number of programs
run at once; each step lets one of them make its next call. A discipline is the
rely-guarantee argument about all of them: an invariant of the state, the way the state
may change between two calls of one program, and the calls a program may make. -/
namespace Sangtachi.AtomicPrograms

/-- `Reading` is what a call takes from outside the state: a clock value, a random draw,
a fault. -/
structure Machine where
  State : Type
  Call : Type
  Reply : Call → Type
  Reading : Type
  exec : Reading → (c : Call) → State → Reply c × State

inductive Prog (Call : Type) (Reply : Call → Type) (ε α : Type) where
  | done (value : α)
  | fail (error : ε)
  | call (c : Call) (next : Reply c → Prog Call Reply ε α)

namespace Prog

variable {Call : Type} {Reply : Call → Type} {ε α β : Type}

def bind : Prog Call Reply ε α → (α → Prog Call Reply ε β) → Prog Call Reply ε β
  | .done a, f => f a
  | .fail e, _ => .fail e
  | .call c next, f => .call c fun reply => (next reply).bind f

instance : Monad (Prog Call Reply ε) where
  pure := .done
  bind := bind

instance : MonadExcept ε (Prog Call Reply ε) where
  throw := .fail
  tryCatch p _ := p

/-- A value that may already be an error. -/
def ofExcept : Except ε α → Prog Call Reply ε α
  | .ok a => .done a
  | .error e => .fail e

@[simp] theorem done_bind (a : α) (f : α → Prog Call Reply ε β) : (Prog.done a >>= f) = f a := rfl

@[simp] theorem pure_bind (a : α) (f : α → Prog Call Reply ε β) :
    ((pure a : Prog Call Reply ε α) >>= f) = f a := rfl

@[simp] theorem fail_bind (e : ε) (f : α → Prog Call Reply ε β) :
    (Prog.fail e >>= f) = .fail e := rfl

@[simp] theorem call_bind (c : Call) (next : Reply c → Prog Call Reply ε α)
    (f : α → Prog Call Reply ε β) :
    (Prog.call c next >>= f) = .call c fun reply => next reply >>= f := rfl

theorem bind_assoc {γ : Type} (p : Prog Call Reply ε α) (f : α → Prog Call Reply ε β)
    (g : β → Prog Call Reply ε γ) : (p >>= f) >>= g = p >>= fun a => f a >>= g := by
  induction p with
  | done a => rfl
  | fail e => rfl
  | call c next ih => exact congrArg (Prog.call c) (funext ih)

@[simp] theorem throw_eq (e : ε) : (throw e : Prog Call Reply ε α) = .fail e := rfl

@[simp] theorem pure_eq (a : α) : (pure a : Prog Call Reply ε α) = .done a := rfl

def outcome : Prog Call Reply ε α → Option (Except ε α)
  | .done a => some (.ok a)
  | .fail e => some (.error e)
  | .call _ _ => none

end Prog

section

variable (M : Machine)

/-- One call as it happened: the state it found, what it read, and the call. -/
structure Event where
  before : M.State
  reading : M.Reading
  call : M.Call

/-- One request: the state at its start, the calls made so far, and what is left to do. -/
structure Task (Request ε α : Type) where
  request : Request
  began : M.State
  past : List (Event M)
  rest : Prog M.Call M.Reply ε α

structure World (Request ε α : Type) where
  state : M.State
  tasks : List (Task M Request ε α)

inductive Action (Request : Type) where
  | start (request : Request)
  | advance (index : ℕ) (reading : M.Reading)

end

variable {M : Machine} {Request ε α β : Type}

def Event.reply (e : Event M) : M.Reply e.call := (M.exec e.reading e.call e.before).1

def Event.after (e : Event M) : M.State := (M.exec e.reading e.call e.before).2

def Task.seen (t : Task M Request ε α) : M.State := (t.past.getLast?.map Event.after).getD t.began

def step (program : Request → Prog M.Call M.Reply ε α) (w : World M Request ε α) :
    Action M Request → Option (World M Request ε α)
  | .start request => some { w with tasks := w.tasks ++ [⟨request, w.state, [], program request⟩] }
  | .advance index reading =>
    match w.tasks[index]? with
    | none => none
    | some t =>
      match t.rest with
      | .done _ => none
      | .fail _ => none
      | .call c next =>
        some {
          state := (M.exec reading c w.state).2
          tasks := w.tasks.set index
            { t with
              past := t.past ++ [⟨w.state, reading, c⟩]
              rest := next (M.exec reading c w.state).1 } }

/-- The call the action is about to make, if it makes one. -/
def Action.next (w : World M Request ε α) : Action M Request → Option (M.Call × M.Reading)
  | .start _ => none
  | .advance index reading =>
    match w.tasks[index]? with
    | some { rest := .call c _, .. } => some (c, reading)
    | _ => none

/-- The actions whose readings the surroundings can produce. -/
def Admitted (admits : M.State → M.Call → M.Reading → Prop) (w : World M Request ε α)
    (a : Action M Request) : Prop :=
  ∀ c r, a.next w = some (c, r) → admits w.state c r

def Step (admits : M.State → M.Call → M.Reading → Prop)
    (program : Request → Prog M.Call M.Reply ε α) (w w' : World M Request ε α) : Prop :=
  ∃ a, Admitted admits w a ∧ step program w a = some w'

abbrev Steps (admits : M.State → M.Call → M.Reading → Prop)
    (program : Request → Prog M.Call M.Reply ε α) : World M Request ε α →
    World M Request ε α → Prop :=
  Relation.ReflTransGen (Step admits program)

theorem step_cases {admits : M.State → M.Call → M.Reading → Prop}
    {program : Request → Prog M.Call M.Reply ε α} {w w' : World M Request ε α}
    (h : Step admits program w w') :
    (∃ request, w' = ⟨w.state, w.tasks ++ [⟨request, w.state, [], program request⟩]⟩) ∨
    (∃ index t reading c next, w.tasks[index]? = some t ∧ t.rest = .call c next ∧
      admits w.state c reading ∧
      w' = ⟨(M.exec reading c w.state).2,
        w.tasks.set index ⟨t.request, t.began, t.past ++ [⟨w.state, reading, c⟩],
          next (M.exec reading c w.state).1⟩⟩) := by
  obtain ⟨a, hadm, hstep⟩ := h
  cases a with
  | start request => exact .inl ⟨request, by simpa [step] using hstep.symm⟩
  | advance index reading =>
    refine .inr ?_
    cases ht : w.tasks[index]? with
    | none => simp [step, ht] at hstep
    | some t =>
      cases hrest : t.rest with
      | done a => simp [step, ht, hrest] at hstep
      | fail e => simp [step, ht, hrest] at hstep
      | call c next =>
        refine ⟨index, t, reading, c, next, ht, hrest, ?_, ?_⟩
        · refine hadm c reading ?_
          obtain ⟨q, b, p, rest⟩ := t
          subst hrest
          simp [Action.next, ht]
        · simpa [step, ht, hrest] using hstep.symm

/-- Runs a schedule whose readings are all admitted. -/
def play (admits : M.State → M.Call → M.Reading → Prop)
    [∀ s c r, Decidable (admits s c r)] (program : Request → Prog M.Call M.Reply ε α) :
    List (Action M Request) → World M Request ε α → Option (World M Request ε α)
  | [], w => some w
  | a :: rest, w =>
    match a.next w with
    | some (c, r) =>
      if admits w.state c r then (step program w a).bind (play admits program rest) else none
    | none => (step program w a).bind (play admits program rest)

theorem play_cons {admits : M.State → M.Call → M.Reading → Prop}
    [∀ s c r, Decidable (admits s c r)] {program : Request → Prog M.Call M.Reply ε α}
    {a : Action M Request} {rest : List (Action M Request)} {w w' : World M Request ε α}
    (h : play admits program (a :: rest) w = some w') :
    Admitted admits w a ∧ (step program w a).bind (play admits program rest) = some w' := by
  unfold play at h
  split at h
  case h_1 c r hnext =>
    split at h
    case isTrue hadm =>
      refine ⟨?_, h⟩
      intro c' r' hnext'
      obtain ⟨rfl, rfl⟩ : c = c' ∧ r = r' := by simpa [hnext] using hnext'
      exact hadm
    case isFalse => cases h
  case h_2 hnext =>
    refine ⟨?_, h⟩
    intro c r hnext'
    simp [hnext] at hnext'

theorem step_of_play {admits : M.State → M.Call → M.Reading → Prop}
    [∀ s c r, Decidable (admits s c r)] {program : Request → Prog M.Call M.Reply ε α}
    {a : Action M Request} {w w' : World M Request ε α}
    (h : play admits program [a] w = some w') : Step admits program w w' := by
  obtain ⟨hadm, hbind⟩ := play_cons h
  obtain ⟨v, hstep, hrest⟩ := Option.bind_eq_some_iff.mp hbind
  obtain rfl : v = w' := by simpa [play] using hrest
  exact ⟨a, hadm, hstep⟩

theorem steps_of_play {admits : M.State → M.Call → M.Reading → Prop}
    [∀ s c r, Decidable (admits s c r)] {program : Request → Prog M.Call M.Reply ε α}
    {schedule : List (Action M Request)} {w w' : World M Request ε α}
    (h : play admits program schedule w = some w') : Steps admits program w w' := by
  induction schedule generalizing w with
  | nil =>
    obtain rfl : w = w' := by simpa [play] using h
    exact .refl
  | cons a rest ih =>
    obtain ⟨hadm, hbind⟩ := play_cons h
    obtain ⟨v, hstep, hrest⟩ := Option.bind_eq_some_iff.mp hbind
    exact .head ⟨a, hadm, hstep⟩ (ih hrest)

/-- The calls that a program has made, whatever state each of them found, and what is left of it. -/
inductive Makes : Prog M.Call M.Reply ε α → List (Event M) → Prog M.Call M.Reply ε α → Prop where
  | none (p : Prog M.Call M.Reply ε α) : Makes p [] p
  | call (e : Event M) {next : M.Reply e.call → Prog M.Call M.Reply ε α} {past : List (Event M)}
      {rest : Prog M.Call M.Reply ε α} (h : Makes (next e.reply) past rest) :
      Makes (.call e.call next) (e :: past) rest

theorem Makes.snoc {p rest : Prog M.Call M.Reply ε α} {past : List (Event M)} {e : Event M}
    {next : M.Reply e.call → Prog M.Call M.Reply ε α} (h : Makes p past rest)
    (hrest : rest = .call e.call next) :
    Makes p (past ++ [e]) (next e.reply) := by
  induction h with
  | none p =>
    subst hrest
    exact .call e (.none _)
  | call e' _ ih => exact .call e' (ih hrest)

theorem steps_makes {admits : M.State → M.Call → M.Reading → Prop}
    {program : Request → Prog M.Call M.Reply ε α} {w w' : World M Request ε α}
    (hsteps : Steps admits program w w')
    (h : ∀ t ∈ w.tasks, Makes (program t.request) t.past t.rest) :
    ∀ t ∈ w'.tasks, Makes (program t.request) t.past t.rest := by
  induction hsteps with
  | refl => exact h
  | tail _ hstep ih =>
    rcases step_cases hstep with ⟨q, rfl⟩ | ⟨i, u, r, c, next, hu, hrest, -, rfl⟩
    · intro t ht
      rcases List.mem_append.mp ht with ht | ht
      · exact ih t ht
      · obtain rfl := List.mem_singleton.mp ht
        exact .none _
    · intro t ht
      rcases List.mem_or_eq_of_mem_set ht with ht | rfl
      · exact ih t ht
      · exact (ih u (List.mem_of_getElem? hu)).snoc (e := ⟨_, r, c⟩) hrest

theorem Makes.next {c : M.Call} {next : M.Reply c → Prog M.Call M.Reply ε α} {past : List (Event M)}
    {rest : Prog M.Call M.Reply ε α} (h : Makes (.call c next) past rest) :
    past = [] ∨ ∃ before reading past', past = ⟨before, reading, c⟩ :: past' ∧
      Makes (next (M.exec reading c before).1) past' rest := by
  cases h with
  | none => exact .inl rfl
  | call e h => exact .inr ⟨e.before, e.reading, _, rfl, h⟩

theorem Makes.ended {p rest : Prog M.Call M.Reply ε α} {past : List (Event M)} {result : Except ε α}
    (h : Makes p past rest) (hp : p.outcome = some result) :
    past = [] ∧ rest.outcome = some result := by
  cases h with
  | none => exact ⟨rfl, hp⟩
  | call e h => cases hp

/-- Each call that the program makes from here is one that `P` allows after the calls made so far,
whatever state it finds, and `Q` holds where it ends well. -/
def Obeys (P : List (Event M) → M.Call → Prop) (Q : List (Event M) → α → Prop) :
    Prog M.Call M.Reply ε α → List (Event M) → Prop
  | .done a, past => Q past a
  | .fail _, _ => True
  | .call c next, past =>
    P past c ∧ ∀ before r, Obeys P Q (next (M.exec r c before).1) (past ++ [⟨before, r, c⟩])

section Obeys

variable {P P' : List (Event M) → M.Call → Prop}

theorem obeys_bind {Q : List (Event M) → β → Prop} {p : Prog M.Call M.Reply ε α}
    {f : α → Prog M.Call M.Reply ε β} {past : List (Event M)}
    (h : Obeys P (fun past a => Obeys P Q (f a) past) p past) :
    Obeys P Q (p >>= f) past := by
  induction p generalizing past with
  | done a => exact h
  | fail e => trivial
  | call c next ih => exact ⟨h.1, fun before r => ih _ (h.2 before r)⟩

/-- The calls made so far stay, and others are added after them. -/
theorem Obeys.weaken {Q Q' : List (Event M) → α → Prop} {p : Prog M.Call M.Reply ε α}
    {past : List (Event M)} (h : Obeys P Q p past)
    (hP : ∀ past' c, past <+: past' → P past' c → P' past' c)
    (hQ : ∀ past' a, past <+: past' → Q past' a → Q' past' a) : Obeys P' Q' p past := by
  induction p generalizing past with
  | done a => exact hQ past a (List.prefix_refl past) h
  | fail e => trivial
  | call c next ih =>
    refine ⟨hP past c (List.prefix_refl past) h.1, fun before r => ih _ (h.2 before r) ?_ ?_⟩
    · exact fun past' c' hle => hP past' c' ((List.prefix_append _ _).trans hle)
    · exact fun past' a hle => hQ past' a ((List.prefix_append _ _).trans hle)

theorem steps_obeys {admits : M.State → M.Call → M.Reading → Prop}
    {program : Request → Prog M.Call M.Reply ε α} {Q : List (Event M) → α → Prop}
    (hprog : ∀ q, Obeys P Q (program q) [])
    {w w' : World M Request ε α} (hsteps : Steps admits program w w')
    (h : ∀ t ∈ w.tasks, Obeys P Q t.rest t.past) :
    ∀ t ∈ w'.tasks, Obeys P Q t.rest t.past := by
  induction hsteps with
  | refl => exact h
  | tail _ hstep ih =>
    rcases step_cases hstep with ⟨q, rfl⟩ | ⟨i, u, r, c, next, hu, hrest, -, rfl⟩
    · intro t ht
      rcases List.mem_append.mp ht with ht | ht
      · exact ih t ht
      · obtain rfl := List.mem_singleton.mp ht
        exact hprog q
    · intro t ht
      rcases List.mem_or_eq_of_mem_set ht with ht | rfl
      · exact ih t ht
      · have hobeys := ih u (List.mem_of_getElem? hu)
        rw [hrest] at hobeys
        exact hobeys.2 _ r

end Obeys

/-- A rely-guarantee discipline. `Grows` is how the state may change under the other
programs' calls; `Licensed` is what a program may do at a state. -/
structure Discipline (M : Machine) (admits : M.State → M.Call → M.Reading → Prop) where
  Inv : M.State → Prop
  Grows : M.State → M.State → Prop
  Licensed : M.State → M.Call → Prop
  refl : ∀ s, Grows s s
  trans : ∀ {s t u}, Grows s t → Grows t u → Grows s u
  licensed_mono : ∀ {s t c}, Grows s t → Licensed s c → Licensed t c
  exec : ∀ {s c r}, Inv s → Licensed s c → admits s c r →
    Inv (M.exec r c s).2 ∧ Grows s (M.exec r c s).2

namespace Discipline

variable {admits : M.State → M.Call → M.Reading → Prop} (D : Discipline M admits)

/-- Every call that the program makes from here is licensed, and it ends as `Q` says, whatever
the other programs do between its calls. -/
def Safe (Q : List (Event M) → M.State → Except ε α → Prop) :
    Prog M.Call M.Reply ε α → List (Event M) → M.State → Prop
  | .done a, past, s => Q past s (.ok a)
  | .fail e, past, s => Q past s (.error e)
  | .call c next, past, s =>
    D.Licensed s c ∧ ∀ before r, D.Grows s before → D.Inv before → admits before c r →
      Safe Q (next (M.exec r c before).1) (past ++ [⟨before, r, c⟩]) (M.exec r c before).2

variable {D}
variable {Q : List (Event M) → M.State → Except ε α → Prop}

theorem safe_call {c : M.Call} {next : M.Reply c → Prog M.Call M.Reply ε α}
    {past : List (Event M)} {s : M.State} (hc : D.Licensed s c)
    (h : ∀ before r, D.Grows s before → D.Inv before → admits before c r →
      D.Inv (M.exec r c before).2 → D.Grows before (M.exec r c before).2 →
      D.Safe Q (next (M.exec r c before).1) (past ++ [⟨before, r, c⟩]) (M.exec r c before).2) :
    D.Safe Q (.call c next) past s := by
  refine ⟨hc, ?_⟩
  intro before r hgrow hinv hadm
  obtain ⟨hinv', hgrow'⟩ := D.exec hinv (D.licensed_mono hgrow hc) hadm
  exact h before r hgrow hinv hadm hinv' hgrow'

theorem safe_bind {p : Prog M.Call M.Reply ε β} {f : β → Prog M.Call M.Reply ε α}
    {past : List (Event M)} {s : M.State}
    (h : D.Safe (fun past s result => match result with
      | .ok b => D.Safe Q (f b) past s
      | .error e => Q past s (.error e)) p past s) : D.Safe Q (p >>= f) past s := by
  induction p generalizing past s with
  | done b => exact h
  | fail e => exact h
  | call c next ih =>
    refine ⟨h.1, ?_⟩
    intro before r hgrow hinv hadm
    exact ih _ (h.2 before r hgrow hinv hadm)

theorem Safe.weaken {Q' : List (Event M) → M.State → Except ε α → Prop}
    {p : Prog M.Call M.Reply ε α} {past : List (Event M)} {s : M.State}
    (h : D.Safe Q p past s) (hinv : D.Inv s)
    (hQ : ∀ past' s' result, D.Inv s' → D.Grows s s' → Q past' s' result → Q' past' s' result) :
    D.Safe Q' p past s := by
  induction p generalizing past s with
  | done a => exact hQ _ _ _ hinv (D.refl s) h
  | fail e => exact hQ _ _ _ hinv (D.refl s) h
  | call c next ih =>
    refine ⟨h.1, ?_⟩
    intro before r hgrow hinv' hadm
    obtain ⟨hinv'', hgrow'⟩ := D.exec hinv' (D.licensed_mono hgrow h.1) hadm
    refine ih _ (h.2 before r hgrow hinv' hadm) hinv'' ?_
    intro past' s' result hi hg hq
    exact hQ past' s' result hi (D.trans hgrow (D.trans hgrow' hg)) hq

/-- Where every call is licensed, a postcondition that always holds needs no argument. -/
theorem safe_of_forall (hlic : ∀ s c, D.Licensed s c) (hQ : ∀ past s result, Q past s result)
    (p : Prog M.Call M.Reply ε α) (past : List (Event M)) (s : M.State) : D.Safe Q p past s := by
  induction p generalizing past s with
  | done a => exact hQ past s _
  | fail e => exact hQ past s _
  | call c next ih => exact ⟨hlic s c, fun before r _ _ _ => ih _ _ _⟩

theorem safe_forall {ι : Type} [hι : Nonempty ι]
    {Q : ι → List (Event M) → M.State → Except ε α → Prop} {p : Prog M.Call M.Reply ε α}
    {past : List (Event M)} {s : M.State}
    (h : ∀ i, D.Safe (Q i) p past s) :
    D.Safe (fun past s result => ∀ i, Q i past s result) p past s := by
  induction p generalizing past s with
  | done a => exact h
  | fail e => exact h
  | call c next ih =>
    refine ⟨(h hι.some).1, ?_⟩
    intro before r hgrow hinv hadm
    exact ih _ fun i => (h i).2 before r hgrow hinv hadm

variable (D) in
/-- A call that was made under the discipline and has not been undone since. -/
structure Kept (now : M.State) (e : Event M) : Prop where
  inv : D.Inv e.before
  licensed : D.Licensed e.before e.call
  admitted : admits e.before e.call e.reading
  grows : D.Grows e.after now

variable (D) in
structure Sound (Q : Request → List (Event M) → M.State → Except ε α → Prop) (now : M.State)
    (t : Task M Request ε α) : Prop where
  began : D.Grows t.began t.seen
  seen : D.Grows t.seen now
  inv : D.Inv t.seen
  past : ∀ e ∈ t.past, D.Kept now e
  safe : D.Safe (Q t.request) t.rest t.past t.seen

variable {Q : Request → List (Event M) → M.State → Except ε α → Prop}

theorem Sound.mono {now later : M.State} {t : Task M Request ε α} (h : D.Sound Q now t)
    (hgrow : D.Grows now later) : D.Sound Q later t where
  began := h.began
  seen := D.trans h.seen hgrow
  inv := h.inv
  past e he := { h.past e he with grows := D.trans (h.past e he).grows hgrow }
  safe := h.safe

variable (D) in
/-- The tasks from the `n`-th on are sound. -/
structure SoundFrom (n : ℕ) (Q : Request → List (Event M) → M.State → Except ε α → Prop)
    (w : World M Request ε α) : Prop where
  inv : D.Inv w.state
  tasks : ∀ i t, n ≤ i → w.tasks[i]? = some t → D.Sound Q w.state t

variable (D) in
structure WorldSound (Q : Request → List (Event M) → M.State → Except ε α → Prop)
    (w : World M Request ε α) : Prop where
  inv : D.Inv w.state
  tasks : ∀ t ∈ w.tasks, D.Sound Q w.state t

theorem worldSound_iff {w : World M Request ε α} : D.WorldSound Q w ↔ D.SoundFrom 0 Q w := by
  constructor
  · exact fun h => ⟨h.inv, fun i t _ ht => h.tasks t (List.mem_of_getElem? ht)⟩
  · intro h
    refine ⟨h.inv, ?_⟩
    intro t ht
    obtain ⟨i, hi⟩ := List.getElem?_of_mem ht
    exact h.tasks i t (Nat.zero_le i) hi

/-- One action keeps the discipline if the older tasks do not break it, and the state only grows. -/
theorem step_soundFrom {program : Request → Prog M.Call M.Reply ε α}
    {w w' : World M Request ε α} {n : ℕ} (hprog : ∀ q s, D.Inv s → D.Safe (Q q) (program q) [] s)
    (hold : ∀ i t c next, i < n → w.tasks[i]? = some t → t.rest = .call c next →
      D.Licensed w.state c)
    (h : D.SoundFrom n Q w) (hstep : Step admits program w w') :
    D.SoundFrom n Q w' ∧ D.Grows w.state w'.state := by
  rcases step_cases hstep with ⟨q, rfl⟩ | ⟨i, t, r, c, next, ht, hrest, hadm, rfl⟩
  · refine ⟨⟨h.inv, ?_⟩, D.refl _⟩
    intro j u hj hu
    rcases Nat.lt_or_ge j w.tasks.length with hlt | hge
    · rw [List.getElem?_append_left hlt] at hu
      exact h.tasks j u hj hu
    · rw [List.getElem?_append_right hge] at hu
      have hmem := List.mem_of_getElem? hu
      obtain rfl : u = ⟨q, w.state, [], program q⟩ := by simpa using hmem
      exact ⟨D.refl _, D.refl _, h.inv, by simp, hprog q _ h.inv⟩
  · have hlic : D.Licensed w.state c := by
      rcases Nat.lt_or_ge i n with hlt | hge
      · exact hold i t c next hlt ht hrest
      · have hs := h.tasks i t hge ht
        have hsafe := hs.safe
        rw [hrest] at hsafe
        exact D.licensed_mono hs.seen hsafe.1
    obtain ⟨hinv, hgrow⟩ := D.exec h.inv hlic hadm
    refine ⟨⟨hinv, ?_⟩, hgrow⟩
    intro j u hj hu
    by_cases hij : i = j
    · subst hij
      have hs := h.tasks i t hj ht
      have hsafe := hs.safe
      rw [hrest] at hsafe
      have hlt : i < w.tasks.length := (List.getElem?_eq_some_iff.mp ht).1
      rw [List.getElem?_set_self hlt] at hu
      obtain rfl := Option.some.inj hu
      refine ⟨?_, ?_, ?_, ?_, ?_⟩
      · simpa [Task.seen, Event.after] using D.trans hs.began (D.trans hs.seen hgrow)
      · simpa [Task.seen, Event.after] using D.refl _
      · simpa [Task.seen, Event.after] using hinv
      · intro e he
        rcases List.mem_append.mp he with he | he
        · exact { hs.past e he with grows := D.trans (hs.past e he).grows hgrow }
        · obtain rfl : e = ⟨w.state, r, c⟩ := by simpa using he
          exact ⟨h.inv, hlic, hadm, D.refl _⟩
      · simpa [Task.seen, Event.after] using hsafe.2 w.state r hs.seen h.inv hadm
    · rw [List.getElem?_set_ne hij] at hu
      exact (h.tasks j u hj hu).mono hgrow

theorem step_sound {program : Request → Prog M.Call M.Reply ε α} {w w' : World M Request ε α}
    (hprog : ∀ q s, D.Inv s → D.Safe (Q q) (program q) [] s)
    (h : D.WorldSound Q w) (hstep : Step admits program w w') :
    D.WorldSound Q w' ∧ D.Grows w.state w'.state := by
  obtain ⟨h', hgrow⟩ := step_soundFrom hprog (fun _ _ _ _ hi => absurd hi (Nat.not_lt_zero _))
    (worldSound_iff.mp h) hstep
  exact ⟨worldSound_iff.mpr h', hgrow⟩

/-- The run rule: a discipline that every program keeps holds over every interleaving. -/
theorem steps_sound {program : Request → Prog M.Call M.Reply ε α} {w w' : World M Request ε α}
    (hprog : ∀ q s, D.Inv s → D.Safe (Q q) (program q) [] s)
    (h : D.WorldSound Q w) (hsteps : Steps admits program w w') :
    D.WorldSound Q w' ∧ D.Grows w.state w'.state := by
  induction hsteps with
  | refl => exact ⟨h, D.refl _⟩
  | tail _ hstep ih =>
    obtain ⟨hw, hgrow⟩ := ih
    obtain ⟨hw', hgrow'⟩ := step_sound hprog hw hstep
    exact ⟨hw', D.trans hgrow hgrow'⟩

theorem steps_soundFrom {program : Request → Prog M.Call M.Reply ε α} {w w' : World M Request ε α}
    (hprog : ∀ q s, D.Inv s → D.Safe (Q q) (program q) [] s) (hlic : ∀ s c, D.Licensed s c)
    (hinv : D.Inv w.state) (hsteps : Steps admits program w w') :
    D.SoundFrom w.tasks.length Q w' := by
  induction hsteps with
  | refl =>
    refine ⟨hinv, ?_⟩
    intro i t hi ht
    rw [List.getElem?_eq_none hi] at ht
    cases ht
  | tail _ hstep ih => exact (step_soundFrom hprog (fun _ _ _ _ _ _ _ => hlic _ _) ih hstep).1

theorem Sound.outcome {now : M.State} {t : Task M Request ε α} (h : D.Sound Q now t)
    {result : Except ε α} (hr : t.rest.outcome = some result) :
    Q t.request t.past t.seen result := by
  have hsafe := h.safe
  cases hrest : t.rest with
  | done a =>
    obtain rfl : Except.ok a = result := by simpa [hrest, Prog.outcome] using hr
    simpa [hrest, Safe] using hsafe
  | fail e =>
    obtain rfl : Except.error e = result := by simpa [hrest, Prog.outcome] using hr
    simpa [hrest, Safe] using hsafe
  | call c next => simp [hrest, Prog.outcome] at hr

/-! ### The order of the calls -/

theorem call_cases {w : World M Request ε α} {index i a : ℕ} {t u : Task M Request ε α}
    {e e' : Event M} {rest : Prog M.Call M.Reply ε α} (ht : w.tasks[index]? = some t)
    (hu : (w.tasks.set index ⟨t.request, t.began, t.past ++ [e], rest⟩)[i]? = some u)
    (he' : u.past[a]? = some e') :
    (∃ u', w.tasks[i]? = some u' ∧ u'.past[a]? = some e') ∨
    (i = index ∧ a = t.past.length ∧ e' = e) := by
  by_cases hi : index = i
  · subst hi
    have hlt : index < w.tasks.length := (List.getElem?_eq_some_iff.mp ht).1
    rw [List.getElem?_set_self hlt] at hu
    obtain rfl := Option.some.inj hu
    rcases Nat.lt_or_ge a t.past.length with hlt' | hge
    · rw [List.getElem?_append_left hlt'] at he'
      exact .inl ⟨t, ht, he'⟩
    · rw [List.getElem?_append_right hge] at he'
      obtain ⟨hzero, heq⟩ := List.getElem?_eq_some_iff.mp he'
      have ha : a = t.past.length := by simp at hzero; omega
      subst ha
      exact .inr ⟨rfl, rfl, by simpa using heq.symm⟩
  · rw [List.getElem?_set_ne hi] at hu
    exact .inl ⟨u, hu, he'⟩

variable (D) in
/-- Calls are atomic, so of any two one came before the other, and those of one task came in order.
-/
structure Ordered (w : World M Request ε α) : Prop where
  any : ∀ (i j a b : ℕ) (t u : Task M Request ε α) (e e' : Event M), w.tasks[i]? = some t →
    t.past[a]? = some e → w.tasks[j]? = some u →
    u.past[b]? = some e' → i ≠ j ∨ a ≠ b → D.Grows e.after e'.before ∨ D.Grows e'.after e.before
  own : ∀ (i a b : ℕ) (t : Task M Request ε α) (e e' : Event M), w.tasks[i]? = some t →
    t.past[a]? = some e → t.past[b]? = some e' → a < b →
    D.Grows e.after e'.before

theorem WorldSound.call {w : World M Request ε α} (h : D.WorldSound Q w) {i a : ℕ}
    {t : Task M Request ε α} {e : Event M} (ht : w.tasks[i]? = some t) (he : t.past[a]? = some e) :
    D.Kept w.state e :=
  (h.tasks t (List.mem_of_getElem? ht)).past e (List.mem_of_getElem? he)

theorem step_ordered {program : Request → Prog M.Call M.Reply ε α} {w w' : World M Request ε α}
    (h : D.WorldSound Q w) (ho : D.Ordered w) (hstep : Step admits program w w') :
    D.Ordered w' := by
  rcases step_cases hstep with ⟨q, rfl⟩ | ⟨index, t, r, c, next, ht, -, -, rfl⟩
  · have hold : ∀ (i a : ℕ) (u : Task M Request ε α) (e : Event M),
      (w.tasks ++ [⟨q, w.state, [], program q⟩])[i]? = some u → u.past[a]? = some e →
        w.tasks[i]? = some u := by
      intro i a u e hu he
      rcases Nat.lt_or_ge i w.tasks.length with hlt | hge
      · rwa [List.getElem?_append_left hlt] at hu
      · rw [List.getElem?_append_right hge] at hu
        have hmem := List.mem_of_getElem? hu
        obtain rfl : u = ⟨q, w.state, [], program q⟩ := by simpa using hmem
        simp at he
    constructor
    · intro i j a b u v e e' hu he hv he' hne
      exact ho.any i j a b u v e e' (hold i a u e hu he) he (hold j b v e' hv he') he' hne
    · intro i a b u e e' hu he he' hlt
      exact ho.own i a b u e e' (hold i a u e hu he) he he' hlt
  · constructor
    · intro i j a b u v e e' hu he hv he' hne
      rcases call_cases ht hu he with ⟨u', hu', he₀⟩ | ⟨rfl, rfl, rfl⟩ <;>
        rcases call_cases ht hv he' with ⟨v', hv', he₁⟩ | ⟨rfl, rfl, rfl⟩
      · exact ho.any i j a b u' v' e e' hu' he₀ hv' he₁ hne
      · exact .inl (h.call hu' he₀).grows
      · exact .inr (h.call hv' he₁).grows
      · simp at hne
    · intro i a b u e e' hu he he' hlt
      rcases call_cases ht hu he with ⟨u', hu', he₀⟩ | ⟨rfl, rfl, rfl⟩ <;>
        rcases call_cases ht hu he' with ⟨v', hv', he₁⟩ | ⟨hi, rfl, rfl⟩
      · obtain rfl := Option.some.inj (hu'.symm.trans hv')
        exact ho.own i a b u' e e' hu' he₀ he₁ hlt
      · exact (h.call hu' he₀).grows
      · obtain rfl := Option.some.inj (ht.symm.trans hv')
        have hlen := (List.getElem?_eq_some_iff.mp he₁).1
        omega
      · omega

theorem steps_ordered {program : Request → Prog M.Call M.Reply ε α} {w w' : World M Request ε α}
    (hprog : ∀ q s, D.Inv s → D.Safe (Q q) (program q) [] s) (h : D.WorldSound Q w)
    (ho : D.Ordered w) (hsteps : Steps admits program w w') :
    D.Ordered w' := by
  induction hsteps with
  | refl => exact ho
  | tail hrun hstep ih => exact step_ordered (steps_sound hprog h hrun).1 ih hstep

theorem steps_prefix {program : Request → Prog M.Call M.Reply ε α} {w w' : World M Request ε α}
    (hsteps : Steps admits program w w') {i : ℕ} {t : Task M Request ε α}
    (ht : w.tasks[i]? = some t) :
    ∃ t', w'.tasks[i]? = some t' ∧ t'.request = t.request ∧ t.past <+: t'.past := by
  induction hsteps with
  | refl => exact ⟨t, ht, rfl, List.prefix_refl _⟩
  | @tail v v' _ hstep ih =>
    obtain ⟨t', ht', hreq, hpre⟩ := ih
    have hlt : i < v.tasks.length := (List.getElem?_eq_some_iff.mp ht').1
    rcases step_cases hstep with ⟨q, rfl⟩ | ⟨index, u, r, c, next, hu, -, -, rfl⟩
    · exact ⟨t', (List.getElem?_append_left hlt).trans ht', hreq, hpre⟩
    · by_cases hi : index = i
      · subst hi
        obtain rfl := Option.some.inj (hu.symm.trans ht')
        exact ⟨_, List.getElem?_set_self hlt, hreq, hpre.trans (List.prefix_append _ _)⟩
      · exact ⟨t', (List.getElem?_set_ne hi).trans ht', hreq, hpre⟩

/-- How many calls the task has made. -/
def callsMade (w : World M Request ε α) (i : ℕ) : ℕ :=
  ((w.tasks[i]?).map fun t => t.past.length).getD 0

theorem steps_since {program : Request → Prog M.Call M.Reply ε α} {w w' : World M Request ε α}
    (hprog : ∀ q s, D.Inv s → D.Safe (Q q) (program q) [] s) (h : D.WorldSound Q w)
    (hsteps : Steps admits program w w') {i a : ℕ} {t : Task M Request ε α} {e : Event M}
    (ht : w'.tasks[i]? = some t) (he : t.past[a]? = some e) (ha : callsMade w i ≤ a) :
    D.Grows w.state e.before := by
  induction hsteps generalizing t with
  | refl =>
    have hlen := (List.getElem?_eq_some_iff.mp he).1
    simp only [callsMade, ht, Option.map_some, Option.getD_some] at ha
    omega
  | @tail v v' hrun hstep ih =>
    rcases step_cases hstep with ⟨q, rfl⟩ | ⟨index, u, r, c, next, hu, -, -, rfl⟩
    · rcases Nat.lt_or_ge i v.tasks.length with hlt | hge
      · rw [List.getElem?_append_left hlt] at ht
        exact ih ht he
      · rw [List.getElem?_append_right hge] at ht
        have hmem := List.mem_of_getElem? ht
        obtain rfl : t = ⟨q, v.state, [], program q⟩ := by simpa using hmem
        simp at he
    · rcases call_cases hu ht he with ⟨t', ht', he'⟩ | ⟨-, -, rfl⟩
      · exact ih ht' he'
      · exact (steps_sound hprog h hrun).2

end Discipline

end Sangtachi.AtomicPrograms
