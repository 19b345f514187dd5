import Sangtachi.Control.Http
import Sangtachi.Core.EagerBucket
import Mathlib.Data.Rat.Floor
import Mathlib.Data.List.Induction

/-! # The rate table on an exact clock

`RateTable` once more, with the seconds of its clock as rational numbers and tokens as Python has
them. Its entries are refilled when they are looked at and dropped at the cap; for each source
that is a bucket that refills by itself. -/
namespace Sangtachi.Control.ExactRate

open Sangtachi.EagerBucket
open Sangtachi.Control.Http (RATE_LIMIT_BUCKET RATE_LIMIT_REFILL_PER_MIN MAX_RATE_ENTRIES)

/-- One token in six seconds. -/
def REFILL_INTERVAL_S : ℚ := 60 / RATE_LIMIT_REFILL_PER_MIN

def BUCKET : ℤ := RATE_LIMIT_BUCKET

example : BUCKET = 10 ∧ REFILL_INTERVAL_S = 6 := by decide +kernel

/-- The tokens left, and the time of the last refill. -/
structure Entry where
  tokens : ℤ
  since : ℚ
  deriving DecidableEq

/-- An entry that reaches the cap is not kept. -/
def Entry.refilled (e : Entry) (now : ℚ) : Option Entry :=
  let steps := ⌊(now - e.since) / REFILL_INTERVAL_S⌋
  let e := if 0 < steps then ⟨e.tokens + steps, e.since + steps * REFILL_INTERVAL_S⟩ else e
  if BUCKET ≤ e.tokens then none else some e

variable {α : Type} [DecidableEq α]

/-- `rateTableFull` counts the spends that found no room even after a sweep. -/
structure RateTable (α : Type) [DecidableEq α] where
  entries : AList fun _ : α => Entry
  rateTableFull : ℕ

def RateTable.empty : RateTable α := ⟨∅, 0⟩

def RateTable.size (table : RateTable α) : ℕ := LazyTable.size table.entries

def RateTable.peek (table : RateTable α) (src : α) : Option ℤ :=
  (table.entries.lookup src).map Entry.tokens

def RateTable.refill (table : RateTable α) (src : α) (now : ℚ) : RateTable α × Option Entry :=
  let (entries, e) := LazyTable.refill (·.refilled now) table.entries src
  ({ table with entries := entries }, e)

def RateTable.exhausted (table : RateTable α) (src : α) (now : ℚ) : RateTable α × Bool :=
  let (table, e) := table.refill src now
  (table, e.any fun e => e.tokens ≤ 0)

def RateTable.sweep (table : RateTable α) (now : ℚ) : RateTable α :=
  { table with entries := LazyTable.sweep (·.refilled now) table.entries }

def Entry.spent (now : ℚ) : Option Entry → Entry
  | some e => { e with tokens := max 0 (e.tokens - 1) }
  | none => ⟨BUCKET - 1, now⟩

def RateTable.spend (table : RateTable α) (src : α) (now : ℚ) : RateTable α :=
  match LazyTable.spend (·.refilled now) MAX_RATE_ENTRIES (Entry.spent now) table.entries src with
  | (entries, true) => { table with entries := entries }
  | (entries, false) => { table with entries := entries, rateTableFull := table.rateTableFull + 1 }

inductive Call (α : Type) where
  | exhausted (src : α)
  | spend (src : α)
  | sweep
  deriving DecidableEq

def RateTable.call (table : RateTable α) (now : ℚ) : Call α → RateTable α
  | .exhausted src => (table.exhausted src now).1
  | .spend src => table.spend src now
  | .sweep => table.sweep now

/-- Calls with the readings of the clock, one after another from the empty table. -/
def run (calls : List (ℚ × Call α)) : RateTable α :=
  calls.foldl (fun table c => table.call c.1 c.2) .empty

/-- The clock never goes back. -/
def Nondecreasing (calls : List (ℚ × Call α)) : Prop := (calls.map Prod.fst).Pairwise (· ≤ ·)

instance (calls : List (ℚ × Call α)) : Decidable (Nondecreasing calls) :=
  inferInstanceAs (Decidable (List.Pairwise _ _))

/-! ## The ideal bucket of a source -/

/-- The times at which a source spends. -/
def spends (src : α) (calls : List (ℚ × Call α)) : List ℚ :=
  calls.filterMap fun c => if c.2 = .spend src then some c.1 else none

/-- A bucket of its own, full at first, that knows of nothing but what its source spends. -/
def ideal (times : List ℚ) : Bucket ℚ :=
  times.foldl (fun b now => spend BUCKET REFILL_INTERVAL_S now b) .full

/-- The bucket an entry stands for; a source without one has all its tokens. -/
def bucketOf : Option Entry → Bucket ℚ
  | none => .full
  | some e => .part e.tokens (e.since + REFILL_INTERVAL_S)

theorem interval_pos : 0 < REFILL_INTERVAL_S := by
  unfold REFILL_INTERVAL_S RATE_LIMIT_REFILL_PER_MIN
  norm_num

theorem bucket_pos : 0 < BUCKET := by decide

/-! ## One entry -/

/-- An entry between two calls. -/
structure Entry.Kept (e : Entry) (now : ℚ) : Prop where
  least : 0 ≤ e.tokens
  most : e.tokens < BUCKET
  since : e.since ≤ now

theorem Entry.Kept.bounded {e : Entry} {now : ℚ} (h : e.Kept now) :
    (bucketOf (some e)).Bounded BUCKET :=
  ⟨h.least, h.most⟩

theorem Entry.refilled_eq {e : Entry} {now : ℚ} (h : e.Kept now) :
    bucketOf (e.refilled now) = advance BUCKET REFILL_INTERVAL_S now (bucketOf (some e)) := by
  have hmost := h.most
  rw [bucketOf, advance_part interval_pos h.least h.most]
  unfold EagerBucket.refill Entry.refilled
  dsimp only
  split_ifs with hsteps htop htop
  · rw [level, if_pos htop]
    rfl
  · rw [level, if_neg htop]
    rfl
  · exact absurd hmost (not_lt.mpr htop)
  · rw [level, if_neg htop]
    rfl

theorem Entry.refilled_kept {e e' : Entry} {now : ℚ} (h : e.Kept now)
    (hr : e.refilled now = some e') :
    e'.Kept now := by
  have hleast := h.least
  unfold Entry.refilled at hr
  dsimp only at hr
  split_ifs at hr with hsteps htop htop
  · cases hr
    refine ⟨by simp only; omega, not_le.mp htop, ?_⟩
    have hfloor := Int.floor_le ((now - e.since) / REFILL_INTERVAL_S)
    rw [le_div_iff₀ interval_pos] at hfloor
    simp only
    linarith
  · cases hr
    exact h

/-! ## The table -/

def RateTable.bucket (table : RateTable α) (src : α) : Bucket ℚ :=
  bucketOf (table.entries.lookup src)

/-- The entries of two tables stand for the same bucket from `now` on. -/
def SameFrom (now : ℚ) (o o' : Option Entry) : Prop :=
  Same BUCKET REFILL_INTERVAL_S now (bucketOf o) (bucketOf o')

theorem refilled_lawful (now : ℚ) :
    LazyTable.Lawful (fun e : Entry => e.refilled now) (·.Kept now) (SameFrom now) where
  refl _ _ _ := rfl
  trans h h' t ht := (h t ht).trans (h' t ht)
  kept h hr := Entry.refilled_kept h hr
  same := by
    intro e h
    unfold SameFrom
    rw [Entry.refilled_eq h]
    exact same_advance interval_pos h.bounded now

abbrev RateTable.Sound (table : RateTable α) (now : ℚ) : Prop :=
  LazyTable.Sound (fun e : Entry => e.Kept now) MAX_RATE_ENTRIES table.entries

theorem RateTable.Sound.mono {table : RateTable α} {now later : ℚ} (h : table.Sound now)
    (hle : now ≤ later) :
    table.Sound later := h.imp fun _ hkept => ⟨hkept.least, hkept.most, hkept.since.trans hle⟩

/-- A change of the table that no bucket shows from `now` on. -/
structure RateTable.Upkeep (table table' : RateTable α) (now : ℚ) : Prop where
  entries : LazyTable.Upkeep (fun e : Entry => e.Kept now) MAX_RATE_ENTRIES
    (SameFrom now) table.entries table'.entries
  full : table'.rateTableFull = table.rateTableFull

theorem RateTable.Upkeep.bucket {table table' : RateTable α} {now : ℚ}
    (h : table.Upkeep table' now) (a : α) :
    Same BUCKET REFILL_INTERVAL_S now (table'.bucket a) (table.bucket a) := h.entries.same a

theorem RateTable.sweep_upkeep {table : RateTable α} {now : ℚ} (h : table.Sound now) :
    table.Upkeep (table.sweep now) now := ⟨LazyTable.sweep_upkeep (refilled_lawful now) h, rfl⟩

theorem refilled_bucket {o : Option Entry} {now : ℚ} (h : ∀ e ∈ o, e.Kept now) :
    bucketOf (o.bind (·.refilled now)) = advance BUCKET REFILL_INTERVAL_S now (bucketOf o) := by
  cases o with
  | none => exact (advance_full now).symm
  | some e => exact Entry.refilled_eq (h e rfl)

theorem RateTable.exhausted_spec {table : RateTable α} {now : ℚ} (h : table.Sound now) (src : α) :
    table.Upkeep (table.exhausted src now).1 now ∧
      (table.exhausted src now).2 =
        EagerBucket.exhausted BUCKET REFILL_INTERVAL_S now (table.bucket src) := by
  obtain ⟨hup, -, hentry⟩ := LazyTable.refill_spec (refilled_lawful now) h src
  refine ⟨⟨hup, rfl⟩, ?_⟩
  have hbucket := refilled_bucket (h.kept src)
  rw [← hentry] at hbucket
  change Option.any _ (LazyTable.refill _ table.entries src).2 = _
  unfold EagerBucket.exhausted RateTable.bucket
  rw [← hbucket]
  cases (LazyTable.refill (fun e : Entry => e.refilled now) table.entries src).2 with
  | none => rfl
  | some e => rfl

theorem Entry.spent_bucket {o : Option Entry} {now : ℚ} (h : ∀ e ∈ o, e.Kept now) :
    bucketOf (some (Entry.spent now (o.bind (·.refilled now)))) =
      EagerBucket.spend BUCKET REFILL_INTERVAL_S now (bucketOf o) := by
  unfold EagerBucket.spend
  rw [← refilled_bucket h]
  cases o.bind (·.refilled now) with
  | none => rfl
  | some e => rfl

theorem Entry.spent_kept {o : Option Entry} {now : ℚ} (h : ∀ e ∈ o, e.Kept now) :
    (Entry.spent now o).Kept now := by
  cases o with
  | none => exact ⟨show 0 ≤ BUCKET - 1 by decide, show BUCKET - 1 < BUCKET by decide, le_rfl⟩
  | some e =>
    obtain ⟨-, hmost, hsince⟩ := h e rfl
    have hpos := bucket_pos
    refine ⟨le_max_left _ _, ?_, hsince⟩
    show max 0 (e.tokens - 1) < BUCKET
    omega

theorem RateTable.spend_spec {table : RateTable α} {now : ℚ} (h : table.Sound now) (src : α) :
    (table.spend src now).Sound now ∧ table.rateTableFull ≤ (table.spend src now).rateTableFull ∧
      ((table.spend src now).rateTableFull = table.rateTableFull → ∀ a,
        Same BUCKET REFILL_INTERVAL_S now ((table.spend src now).bucket a)
          (if a = src then EagerBucket.spend BUCKET REFILL_INTERVAL_S now (table.bucket a) else
            table.bucket a)) := by
  have hspent : ∀ o : Option Entry, (∀ e ∈ o, e.Kept now) → (Entry.spent now o).Kept now :=
    fun _ => Entry.spent_kept
  obtain ⟨hsound, hwritten, -⟩ := LazyTable.spend_spec (refilled_lawful now) h hspent src
  unfold RateTable.spend
  split
  case h_1 entries hspend =>
    rw [hspend] at hsound hwritten
    refine ⟨hsound, le_rfl, fun _ a => ?_⟩
    have hentry := hwritten rfl a
    split_ifs at hentry ⊢ with ha
    · subst ha
      have hbucket := (congrArg bucketOf hentry).trans (Entry.spent_bucket (h.kept a))
      exact fun t _ => congrArg (advance BUCKET REFILL_INTERVAL_S t) hbucket
    · exact hentry
  case h_2 entries hspend =>
    rw [hspend] at hsound
    exact ⟨hsound, Nat.le_succ _, fun hsame => absurd hsame (Nat.succ_ne_self _)⟩

/-! ## Runs -/

/-- The table after some calls, as of `now`: each bucket in it is the ideal one of its source. -/
structure Agrees (calls : List (ℚ × Call α)) (now : ℚ) : Prop where
  sound : (run calls).Sound now
  ideal : (run calls).rateTableFull = 0 → ∀ src,
    Same BUCKET REFILL_INTERVAL_S now ((run calls).bucket src) (ideal (spends src calls))

theorem sound_empty (now : ℚ) : (RateTable.empty : RateTable α).Sound now := by
  refine ⟨?_, Nat.zero_le _⟩
  intro src e he
  cases he

theorem run_snoc (calls : List (ℚ × Call α)) (now : ℚ) (c : Call α) :
    run (calls ++ [(now, c)]) = (run calls).call now c := by
  rw [run, List.foldl_append]
  rfl

theorem spends_snoc (src : α) (calls : List (ℚ × Call α)) (now : ℚ) (c : Call α) :
    spends src (calls ++ [(now, c)]) = spends src calls ++ if c = .spend src then
    [now] else [] := by
  rw [spends, List.filterMap_append]
  congr 1
  by_cases hc : c = .spend src <;> simp [hc]

theorem ideal_snoc (times : List ℚ) (now : ℚ) :
    ideal (times ++ [now]) = EagerBucket.spend BUCKET REFILL_INTERVAL_S now (ideal times) := by
  rw [ideal, List.foldl_append]
  rfl

theorem agrees_upkeep {calls : List (ℚ × Call α)} {now : ℚ} {c : Call α} (h : Agrees calls now)
    (hc : ∀ src, c ≠ .spend src) (hup : (run calls).Upkeep ((run calls).call now c) now) :
    Agrees (calls ++ [(now, c)]) now := by
  refine ⟨?_, ?_⟩
  · rw [run_snoc]
    exact hup.entries.sound
  · rw [run_snoc, hup.full]
    intro hfull src
    rw [spends_snoc, if_neg (hc src), List.append_nil]
    exact fun t ht => (hup.bucket src t ht).trans (h.ideal hfull src t ht)

theorem agrees_spend {calls : List (ℚ × Call α)} {now : ℚ} (h : Agrees calls now) (src : α) :
    Agrees (calls ++ [(now, .spend src)]) now := by
  obtain ⟨hsound, hmono, hspec⟩ := RateTable.spend_spec h.sound src
  refine ⟨?_, ?_⟩
  · rw [run_snoc]
    exact hsound
  · rw [run_snoc]
    intro hfull a
    change ((run calls).spend src now).rateTableFull = 0 at hfull
    have hbefore : (run calls).rateTableFull = 0 := by omega
    have hsame := hspec (hfull.trans hbefore.symm) a
    have hideal := h.ideal hbefore a
    rw [spends_snoc]
    by_cases ha : a = src
    · subst ha
      rw [if_pos rfl] at hsame ⊢
      rw [ideal_snoc, ← hideal.spend]
      exact hsame
    · rw [if_neg ha] at hsame
      rw [if_neg (by simpa using Ne.symm ha), List.append_nil]
      exact fun t ht => (hsame t ht).trans (hideal t ht)

theorem run_agrees {calls : List (ℚ × Call α)} (h : Nondecreasing calls) {now : ℚ}
    (hnow : ∀ c ∈ calls, c.1 ≤ now) : Agrees calls now := by
  induction calls using List.reverseRecOn generalizing now with
  | nil => exact ⟨sound_empty now, fun _ _ _ _ => rfl⟩
  | append_singleton calls last ih =>
    obtain ⟨at', c⟩ := last
    rw [Nondecreasing, List.map_append, List.pairwise_append] at h
    obtain ⟨hbefore, _, hlast⟩ := h
    have hagrees : Agrees calls at' := by
      apply ih hbefore
      intro d hd
      exact hlast d.1 (List.mem_map_of_mem hd) at' (by simp)
    have hstep : Agrees (calls ++ [(at', c)]) at' := by
      cases c with
      | exhausted src =>
        exact agrees_upkeep hagrees (fun _ => nofun) (RateTable.exhausted_spec hagrees.sound src).1
      | spend src => exact agrees_spend hagrees src
      | sweep => exact agrees_upkeep hagrees (fun _ => nofun) (RateTable.sweep_upkeep hagrees.sound)
    have hle : at' ≤ now := hnow (at', c) (by simp)
    exact ⟨hstep.sound.mono hle, fun hfull src => (hstep.ideal hfull src).mono hle⟩

/-- The answer a source gets does not depend on how the table was looked at, swept or used by
others: it is that of a bucket of its own that refills by itself. -/
theorem rate_table_ideal {calls : List (ℚ × Call α)} {now : ℚ} (h : Nondecreasing calls)
    (hnow : ∀ c ∈ calls, c.1 ≤ now) :
    ((run calls).rateTableFull = 0 → ∀ src,
      ((run calls).exhausted src now).2 =
        EagerBucket.exhausted BUCKET REFILL_INTERVAL_S now (ideal (spends src calls))) ∧
    (∀ (others : List (ℚ × Call α)) (src : α), Nondecreasing others → (∀ c ∈ others, c.1 ≤ now) →
      spends src others = spends src calls → (run calls).rateTableFull = 0 →
      (run others).rateTableFull = 0 →
      ((run others).exhausted src now).2 = ((run calls).exhausted src now).2) ∧
    (∀ src tokens, (run calls).peek src = some tokens → 0 ≤ tokens ∧ tokens ≤ 9) ∧
    (run calls).size ≤ MAX_RATE_ENTRIES := by
  have hagrees := run_agrees h hnow
  have hanswer : ∀ {calls : List (ℚ × Call α)}, Agrees calls now →
    (run calls).rateTableFull = 0 → ∀ src,
      ((run calls).exhausted src now).2 =
        EagerBucket.exhausted BUCKET REFILL_INTERVAL_S now (ideal (spends src calls)) := by
    intro calls hagrees hfull src
    rw [(RateTable.exhausted_spec hagrees.sound src).2]
    exact (hagrees.ideal hfull src).exhausted
  refine ⟨hanswer hagrees, ?_, ?_, hagrees.sound.bounded⟩
  · intro others src hothers hlast hsame hfull hfull'
    rw [hanswer hagrees hfull, hanswer (run_agrees hothers hlast) hfull', hsame]
  · intro src tokens hpeek
    obtain ⟨e, he, rfl⟩ := Option.map_eq_some_iff.mp hpeek
    obtain ⟨hleast, hmost, _⟩ := hagrees.sound.kept src e he
    exact ⟨hleast, Int.lt_add_one_iff.mp hmost⟩

/-- A source that spends ten tokens at once, is asked about, and goes on. -/
def guesses : List (ℚ × Call ℕ) :=
  List.replicate 10 (0, .spend 1) ++ [(5, .exhausted 1), (6, .spend 2), (6, .spend 1)]

theorem guesses_exhausted :
    ((run guesses).exhausted 1 7).2 =
        EagerBucket.exhausted BUCKET REFILL_INTERVAL_S 7 (ideal (spends 1 guesses)) ∧
      ((run guesses).exhausted 1 7).2 = true :=
  ⟨(rate_table_ideal (show Nondecreasing guesses by decide +kernel)
    (show ∀ c ∈ guesses, c.1 ≤ 7 by decide +kernel)).1
      (by decide +kernel) 1,
    by decide +kernel⟩

end Sangtachi.Control.ExactRate
