import Mathlib.Algebra.Order.Floor.Ring
import Mathlib.Algebra.Order.Field.Basic
import Mathlib.Tactic.Linarith
import Mathlib.Tactic.FieldSimp
import Mathlib.Tactic.Ring

/-! # Token buckets that refill by themselves

A bucket below its capacity gains a token each period and is full for good once it has them all; a
full one starts a new period with the next token taken. Nothing is put off here: what a lazy
bucket computes when it is looked at is compared with this. The clock is any field whose numbers
have an integer part. -/
namespace Sangtachi.EagerBucket

variable {K : Type*} [Field K] [LinearOrder K] [IsStrictOrderedRing K]

/-- `part tokens due` gains its next token at `due`. -/
inductive Bucket (K : Type*) where
  | full
  | part (tokens : ℤ) (due : K)
  deriving DecidableEq, Repr

variable (cap : ℤ) (period : K)

/-- What a bucket of `tokens` is, when its next token is due at `due`. -/
def level (tokens : ℤ) (due : K) : Bucket K := if cap ≤ tokens then .full else .part tokens due

/-- The tokens that come up to `now`, one after another; `fuel` is what may be missing. -/
def gain (now : K) : ℕ → Bucket K → Bucket K
  | _, .full => .full
  | 0, .part tokens due => .part tokens due
  | fuel + 1, .part tokens due =>
    if due ≤ now then gain now fuel (level cap (tokens + 1) (due + period)) else .part tokens due

def advance (now : K) (b : Bucket K) : Bucket K := gain cap period now cap.toNat b

/-- A token is taken; none is owed when there is none. -/
def spend (now : K) (b : Bucket K) : Bucket K :=
  match advance cap period now b with
  | .full => level cap (cap - 1) (now + period)
  | .part tokens due => .part (max 0 (tokens - 1)) due

def exhausted (now : K) (b : Bucket K) : Bool :=
  match advance cap period now b with
  | .full => false
  | .part tokens _ => tokens ≤ 0

/-- Between no token and one short of the capacity. -/
def Bucket.Bounded : Bucket K → Prop
  | .full => True
  | .part tokens _ => 0 ≤ tokens ∧ tokens < cap

variable {cap period} {now later since : K} {tokens : ℤ}

/-- Two buckets that cannot be told apart from `now` on. -/
def Same (cap : ℤ) (period : K) (now : K) (b c : Bucket K) : Prop :=
  ∀ t, now ≤ t → advance cap period t b = advance cap period t c

section Same

omit [IsStrictOrderedRing K]

variable {b c : Bucket K}

theorem Same.mono (h : Same cap period now b c) (hle : now ≤ later) : Same cap period later b c :=
  fun t ht => h t (hle.trans ht)

theorem Same.spend (h : Same cap period now b c) :
    spend cap period now b = spend cap period now c := by
  unfold EagerBucket.spend
  rw [h now le_rfl]

theorem Same.exhausted (h : Same cap period now b c) :
    exhausted cap period now b = exhausted cap period now c := by
  unfold EagerBucket.exhausted
  rw [h now le_rfl]

end Same

section Refill

variable [FloorRing K]

/-- The lazy refill: the whole periods since the last one are added at once. -/
def refill (cap : ℤ) (period : K) (tokens : ℤ) (since now : K) : Bucket K :=
  let steps := ⌊(now - since) / period⌋
  if 0 < steps then level cap (tokens + steps) (since + steps * period + period)
  else level cap tokens (since + period)

theorem floor_step (hperiod : 0 < period) (now since : K) :
    ⌊(now - (since + period)) / period⌋ = ⌊(now - since) / period⌋ - 1 := by
  have hne : period ≠ 0 := hperiod.ne'
  rw [show (now - (since + period)) / period = (now - since) / period - 1 by field_simp; ring,
    Int.floor_sub_one]

theorem due_iff (hperiod : 0 < period) : since + period ≤ now ↔ 0 < ⌊(now - since) / period⌋ := by
  rw [← Int.add_one_le_iff, zero_add, Int.le_floor, Int.cast_one, le_div_iff₀ hperiod, one_mul]
  constructor <;> intro h <;> linarith

theorem gain_eq_refill (hperiod : 0 < period) {fuel : ℕ} (hfuel : cap - tokens ≤ fuel)
    (hcap : tokens < cap) :
    gain cap period now fuel (.part tokens (since + period)) =
      refill cap period tokens since now := by
  induction fuel generalizing tokens since with
  | zero => omega
  | succ fuel ih =>
    unfold gain refill
    dsimp only
    by_cases hdue : since + period ≤ now
    · have hpos := (due_iff hperiod).mp hdue
      have hstep := floor_step hperiod now since
      rw [if_pos hdue, if_pos hpos]
      by_cases htop : cap ≤ tokens + 1
      · rw [level, level, if_pos htop, if_pos (by omega)]
        cases fuel <;> rfl
      · rw [level, if_neg htop, ih (by omega) (by omega), refill]
        rw [hstep]
        split_ifs with hmore
        · congr 1
          · omega
          · push_cast
            ring
        · have hone : ⌊(now - since) / period⌋ = 1 := by omega
          rw [hone]
          congr 1
          push_cast
          ring
    · rw [if_neg hdue, if_neg (fun hpos => hdue ((due_iff hperiod).mpr hpos)), level,
        if_neg (by omega)]

theorem advance_part (hperiod : 0 < period) (hzero : 0 ≤ tokens) (hcap : tokens < cap) :
    advance cap period now (.part tokens (since + period)) = refill cap period tokens since now :=
  gain_eq_refill hperiod (by omega) hcap

omit [IsStrictOrderedRing K] [FloorRing K] in
theorem advance_full (now : K) : advance cap period now (.full : Bucket K) = .full := by
  unfold advance
  cases cap.toNat <;> rfl

omit [IsStrictOrderedRing K] in
variable (now since) in
theorem refill_cases (hcap : tokens < cap) :
    (⌊(now - since) / period⌋ ≤ 0 ∧
      refill cap period tokens since now = .part tokens (since + period)) ∨
      ∃ k : ℤ, 0 < k ∧ k = ⌊(now - since) / period⌋ ∧
        ((cap ≤ tokens + k ∧ refill cap period tokens since now = .full) ∨
          (tokens + k < cap ∧
            refill cap period tokens since now = .part (tokens + k)
            (since + k * period + period))) := by
  unfold refill
  dsimp only
  by_cases hpos : 0 < ⌊(now - since) / period⌋
  · rw [if_pos hpos]
    right
    refine ⟨_, hpos, rfl, ?_⟩
    by_cases htop : cap ≤ tokens + ⌊(now - since) / period⌋
    · exact .inl ⟨htop, by rw [level, if_pos htop]⟩
    · exact .inr ⟨by omega, by rw [level, if_neg htop]⟩
  · rw [if_neg hpos, level, if_neg (by omega)]
    exact .inl ⟨by omega, rfl⟩

/-- The tokens that come up to `later` are those that come up to `now`, and then the others. -/
theorem advance_advance (hperiod : 0 < period) {b : Bucket K} (h : b.Bounded cap)
    (hle : now ≤ later) :
    advance cap period later (advance cap period now b) = advance cap period later b := by
  cases b with
  | full => rw [advance_full]
  | part tokens due =>
    obtain ⟨hzero, hcap⟩ := h
    have hmono : ⌊(now - (due - period)) / period⌋ ≤ ⌊(later - (due - period)) / period⌋ := by
      apply Int.floor_le_floor
      apply (div_le_div_iff_of_pos_right hperiod).mpr
      linarith
    rw [show due = due - period + period by ring, advance_part hperiod hzero hcap,
      advance_part hperiod hzero hcap]
    rcases refill_cases now (due - period) hcap with
      ⟨_, heq⟩ | ⟨k, hk, hkeq, ⟨htop, heq⟩ | ⟨hlt, heq⟩⟩
    · rw [heq, advance_part hperiod hzero hcap]
    · rw [heq, advance_full]
      unfold refill
      dsimp only
      rw [if_pos (by omega), level, if_pos (by omega)]
    · rw [heq, advance_part hperiod (by omega) hlt]
      have hshift : ⌊(later - (due - period + k * period)) / period⌋ =
          ⌊(later - (due - period)) / period⌋ - k := by
        have hne : period ≠ 0 := hperiod.ne'
        rw [show (later - (due - period + k * period)) / period =
          (later - (due - period)) / period - k by
          field_simp
          ring, Int.floor_sub_intCast]
      unfold refill
      dsimp only
      rw [hshift, if_pos (show 0 < ⌊(later - (due - period)) / period⌋ by omega)]
      by_cases hmore : 0 < ⌊(later - (due - period)) / period⌋ - k
      · rw [if_pos hmore]
        congr 1
        · omega
        · push_cast
          ring
      · rw [if_neg hmore]
        have hsame : ⌊(later - (due - period)) / period⌋ = k := by omega
        rw [hsame]

theorem same_advance (hperiod : 0 < period) {b : Bucket K} (h : b.Bounded cap) (now : K) :
    Same cap period now (advance cap period now b) b :=
  fun _ hle => advance_advance hperiod h hle

end Refill

end Sangtachi.EagerBucket
