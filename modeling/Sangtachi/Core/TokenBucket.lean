import Mathlib.Algebra.Order.Group.Nat
import Mathlib.Tactic.Ring
import Mathlib.Tactic.Linarith

/-! # Token buckets refilled on demand

A bucket holds a level and the time it was last refilled. Refilling is lazy: the level is
brought up to date only when somebody asks. `Run` is the history of a bucket with the times of
its grants; the rate limit holds in every window of every history. -/
namespace Sangtachi.TokenBucket

variable {cap rate cost level stamp now : ℕ}

/-- The level after all the time since `stamp` has been credited. -/
def available (cap rate level stamp now : ℕ) : ℕ := min cap (level + rate * (now - stamp))

theorem available_le_cap (cap rate level stamp now : ℕ) :
    available cap rate level stamp now ≤ cap := min_le_left _ _

theorem available_self (h : level ≤ cap) : available cap rate level now now = level := by
  simp [available, h]

theorem available_later (cap rate level stamp : ℕ) {now later : ℕ} (h : now ≤ later) :
    available cap rate level stamp later ≤
      available cap rate level stamp now + rate * (later - now) := by
  have hsplit : rate * (later - stamp) ≤ rate * (now - stamp) + rate * (later - now) := by
    rw [← Nat.mul_add]
    exact Nat.mul_le_mul_left rate (by omega)
  unfold available
  omega

theorem available_refill (h : stamp ≤ now) {later : ℕ} (hl : now ≤ later) :
    available cap rate (available cap rate level stamp now) now later =
      available cap rate level stamp later := by
  have hsplit : rate * (later - stamp) = rate * (now - stamp) + rate * (later - now) := by
    rw [← Nat.mul_add]
    congr 1
    omega
  unfold available
  rw [hsplit]
  omega

/-- Cutting the elapsed time to the free room before multiplying loses nothing. -/
theorem cut_refill (hrate : 0 < rate) (h : level ≤ cap) :
    level + min (cap - level) (min (now - stamp) (cap - level) * rate) =
      available cap rate level stamp now := by
  unfold available
  rcases le_total (now - stamp) (cap - level) with hle | hle
  · rw [min_eq_left hle, Nat.mul_comm]
    omega
  · have hroom : cap - level ≤ (cap - level) * rate := Nat.le_mul_of_pos_right _ hrate
    have hfull : cap - level ≤ rate * (now - stamp) := by
      calc cap - level ≤ now - stamp := hle
        _ ≤ rate * (now - stamp) := Nat.le_mul_of_pos_left _ hrate
    rw [min_eq_right hle, min_eq_left hroom]
    omega

/-- A bucket of whole tokens, each worth `unit` of the clock, that stays below its top: the whole
tokens of the time since are added, and the rest of that time is kept. -/
theorem available_whole {unit top tokens : ℕ} (hunit : 0 < unit)
    (h : tokens + (now - stamp) / unit < top) :
    available (top * unit) 1 (tokens * unit) stamp now =
      (tokens + (now - stamp) / unit) * unit + (now - stamp) % unit := by
  have hdiv := Nat.div_add_mod (now - stamp) unit
  rw [Nat.mul_comm] at hdiv
  have hmod := Nat.mod_lt (now - stamp) hunit
  have hle := Nat.mul_le_mul_right unit h
  rw [Nat.succ_mul, Nat.add_mul] at hle
  unfold available
  rw [Nat.add_mul]
  omega

theorem available_top {unit top tokens : ℕ} (h : top ≤ tokens + (now - stamp) / unit) :
    available (top * unit) 1 (tokens * unit) stamp now = top * unit := by
  have hle := Nat.mul_le_mul_right unit h
  have hdiv := Nat.div_mul_le_self (now - stamp) unit
  rw [Nat.add_mul] at hle
  unfold available
  omega

/-- A bucket's history: the times of its grants, the stored level and stamp, and the clock. -/
inductive Run (cap rate cost : ℕ) : List ℕ → ℕ → ℕ → ℕ → Prop where
  | full (now : ℕ) : Run cap rate cost [] cap now now
  | wait {grants level stamp now later} : Run cap rate cost grants level stamp now → now ≤ later →
      Run cap rate cost grants level stamp later
  | refill {grants level stamp now} : Run cap rate cost grants level stamp now →
      Run cap rate cost grants (available cap rate level stamp now) now now
  | grant {grants level now} : Run cap rate cost grants level now now → cost ≤ level →
      Run cap rate cost (grants ++ [now]) (level - cost) now now

variable {grants : List ℕ}

theorem Run.level_le (h : Run cap rate cost grants level stamp now) : level ≤ cap := by
  induction h with
  | full => exact le_refl _
  | wait _ _ ih => exact ih
  | refill => exact available_le_cap _ _ _ _ _
  | grant _ _ ih => exact (Nat.sub_le _ _).trans ih

theorem Run.stamp_le (h : Run cap rate cost grants level stamp now) : stamp ≤ now := by
  induction h with
  | full => exact le_refl _
  | wait _ hl ih => exact ih.trans hl
  | refill => exact le_refl _
  | grant => exact le_refl _

theorem Run.grants_le (h : Run cap rate cost grants level stamp now) : ∀ t ∈ grants, t ≤ now := by
  induction h with
  | full => simp
  | wait _ hl ih => exact fun t ht => (ih t ht).trans hl
  | refill _ ih => exact ih
  | grant _ _ ih =>
    intro t ht
    rcases List.mem_append.mp ht with ht | ht
    · exact ih t ht
    · exact (List.mem_singleton.mp ht).le

/-- The grants from `a` on. -/
def grantsFrom (a : ℕ) (grants : List ℕ) : ℕ := grants.countP (a ≤ ·)

/-- While the clock stands in the window, what was granted there and what is available now come
from the capacity and the time since the window opened. -/
theorem Run.ledger (h : Run cap rate cost grants level stamp now) {a : ℕ} (ha : a ≤ now) :
    cost * grantsFrom a grants + available cap rate level stamp now ≤ cap + rate * (now - a) := by
  induction h with
  | full now =>
    have h := available_le_cap cap rate cap now now
    simp only [grantsFrom, List.countP_nil, Nat.mul_zero, Nat.zero_add]
    omega
  | @wait grants level stamp now later hrun hl ih =>
    rcases le_total a now with hle | hle
    · have h₁ := ih hle
      have h₂ := available_later cap rate level stamp hl
      have h₃ : rate * (later - a) = rate * (now - a) + rate * (later - now) := by
        rw [← Nat.mul_add]
        congr 1
        omega
      omega
    · rcases eq_or_lt_of_le hle with rfl | hlt
      · have h₁ := ih (le_refl _)
        have h₂ := available_later cap rate level stamp hl
        simp only [Nat.sub_self, Nat.mul_zero] at h₁
        omega
      · have hnone : grantsFrom a grants = 0 := by
          refine List.countP_eq_zero.mpr fun t ht => ?_
          have := hrun.grants_le t ht
          simp
          omega
        have h := available_le_cap cap rate level stamp later
        rw [hnone]
        omega
  | refill hrun ih =>
    have h := ih ha
    rwa [available_refill hrun.stamp_le (le_refl _)]
  | @grant grants level now hrun hc ih =>
    have h := ih ha
    have hcount : grantsFrom a (grants ++ [now]) = grantsFrom a grants + 1 := by
      simp [grantsFrom, ha]
    rw [available_self hrun.level_le] at h
    rw [available_self ((Nat.sub_le _ _).trans hrun.level_le), hcount, Nat.mul_add, Nat.mul_one]
    omega

/-- The grants in the closed window from `a` to `b`. -/
def grantsWithin (a b : ℕ) (grants : List ℕ) : ℕ := grants.countP (fun t => a ≤ t && t ≤ b)

theorem grantsWithin_le_from (a b : ℕ) (grants : List ℕ) :
    grantsWithin a b grants ≤ grantsFrom a grants := by
  refine List.countP_mono_left fun t _ ht => ?_
  simp only [Bool.and_eq_true, decide_eq_true_eq] at ht
  simpa using ht.1

theorem Run.window (h : Run cap rate cost grants level stamp now) (a len : ℕ) :
    cost * grantsWithin a (a + len) grants ≤ cap + rate * len := by
  induction h with
  | full => simp [grantsWithin]
  | wait _ _ ih => exact ih
  | refill _ ih => exact ih
  | @grant grants level now hrun hc ih =>
    by_cases hin : a ≤ now ∧ now ≤ a + len
    · have hledger := (Run.grant hrun hc).ledger hin.1
      have hle := Nat.mul_le_mul_left cost (grantsWithin_le_from a (a + len) (grants ++ [now]))
      have hlen : rate * (now - a) ≤ rate * len := Nat.mul_le_mul_left rate (by omega)
      omega
    · have hcount : grantsWithin a (a + len) (grants ++ [now]) =
          grantsWithin a (a + len) grants := by
        simp only [grantsWithin, List.countP_append, List.countP_singleton, Bool.and_eq_true,
          decide_eq_true_eq, if_neg hin, Nat.add_zero]
      rwa [hcount]

end Sangtachi.TokenBucket
