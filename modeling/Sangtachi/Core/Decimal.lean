import Mathlib.Algebra.Group.Nat.Defs
import Mathlib.Data.Nat.Notation
import Mathlib.Data.List.Induction

/-! # Canonical decimals

A number has one spelling in digits without a leading zero. -/
namespace Sangtachi.Decimal

def isDigit (c : Char) : Bool := '0'.toNat ≤ c.toNat && c.toNat ≤ '9'.toNat

def value (text : List Char) : ℕ := text.foldl (fun n c => n * 10 + (c.toNat - '0'.toNat)) 0

/-- Digits, with a zero in front only when it stands alone. -/
structure Canonical (text : List Char) : Prop where
  nonempty : text ≠ []
  digits : ∀ c ∈ text, isDigit c = true
  first : 1 < text.length → text.head? ≠ some '0'

theorem head_front {front : List Char} (h : front ≠ []) (rest : List Char) :
    (front ++ rest).head? = front.head? := by
  cases front with
  | nil => exact absurd rfl h
  | cons c front => rfl

theorem value_append (front : List Char) (c : Char) :
    value (front ++ [c]) = value front * 10 + (c.toNat - '0'.toNat) := by
  unfold value
  rw [List.foldl_append]
  rfl

theorem digitChar_toNat {c : Char} (h : isDigit c = true) :
    c.toNat - '0'.toNat < 10 ∧ Nat.digitChar (c.toNat - '0'.toNat) = c := by
  unfold isDigit at h
  simp only [Bool.and_eq_true, decide_eq_true_eq] at h
  have hzero : '0'.toNat = 48 := rfl
  have hnine : '9'.toNat = 57 := rfl
  obtain ⟨hlow, hhigh⟩ := h
  have hchar : c = Char.ofNat c.toNat := (Char.ofNat_toNat c).symm
  generalize c.toNat = n at hlow hhigh hchar
  obtain ⟨d, rfl⟩ : ∃ d, n = 48 + d := ⟨n - 48, by omega⟩
  refine ⟨by omega, ?_⟩
  rw [hchar, hzero, Nat.add_sub_cancel_left]
  have hall : ∀ d < 10, Nat.digitChar d = Char.ofNat (48 + d) := by decide
  exact hall d (by omega)

theorem isDigit_digitChar {d : ℕ} (h : d < 10) : isDigit (Nat.digitChar d) = true := by
  have hall : ∀ d < 10, isDigit (Nat.digitChar d) = true := by decide
  exact hall d h

theorem value_toDigits (n : ℕ) : value (Nat.toDigits 10 n) = n := by
  have h := Nat.ofDigitChars_ten_toDigits (n := n)
  unfold Nat.ofDigitChars at h
  unfold value
  simp only [Nat.mul_comm _ 10]
  exact h

theorem toDigits_canonical (n : ℕ) : Canonical (Nat.toDigits 10 n) := by
  induction n using Nat.strongRecOn with
  | ind n ih =>
    rw [Nat.toDigits_eq_if (by decide)]
    by_cases hsmall : n < 10
    · rw [if_pos hsmall]
      refine ⟨List.cons_ne_nil _ _, ?_, fun h => absurd h (Nat.lt_irrefl 1)⟩
      rw [List.forall_mem_singleton]
      exact isDigit_digitChar hsmall
    · rw [if_neg hsmall]
      have hfront := ih (n / 10) (by omega)
      refine ⟨List.append_ne_nil_of_left_ne_nil hfront.nonempty _, ?_, fun _ => ?_⟩
      · intro c hc
        rcases List.mem_append.mp hc with hin | hin
        · exact hfront.digits c hin
        · rw [List.mem_singleton.mp hin]
          exact isDigit_digitChar (Nat.mod_lt n (by decide))
      · rw [head_front hfront.nonempty]
        intro hzero
        by_cases hone : 1 < (Nat.toDigits 10 (n / 10)).length
        · exact hfront.first hone hzero
        · -- a single digit in front is not zero, for it is `n / 10`
          have hlen : (Nat.toDigits 10 (n / 10)).length = 1 := by
            have hpositive := List.length_pos_iff.mpr hfront.nonempty
            omega
          obtain ⟨c, hc⟩ := List.length_eq_one_iff.mp hlen
          have hvalue := value_toDigits (n / 10)
          rw [hc] at hvalue hzero
          rw [Option.some.inj hzero] at hvalue
          have hnone : value ['0'] = 0 := rfl
          omega

theorem value_pos {text : List Char} (h : Canonical text) (hfirst : text.head? ≠ some '0') :
    0 < value text := by
  obtain ⟨front, c, rfl⟩ : ∃ c rest, text = c :: rest := List.exists_cons_of_ne_nil h.nonempty
  have hdigit := digitChar_toNat (h.digits front List.mem_cons_self)
  have hone : 0 < front.toNat - '0'.toNat := by
    by_contra hzero
    have h0 : front.toNat - '0'.toNat = 0 := by omega
    rw [h0] at hdigit
    exact hfirst (congrArg some hdigit.2.symm)
  have hle (n : ℕ) (rest : List Char) : n ≤
    rest.foldl (fun n c => n * 10 + (c.toNat - '0'.toNat)) n := by
    induction rest generalizing n with
    | nil => exact Nat.le_refl n
    | cons d rest ih =>
      have h := ih (n * 10 + (d.toNat - '0'.toNat))
      rw [List.foldl_cons]
      omega
  unfold value
  rw [List.foldl_cons]
  have hstep := hle (0 * 10 + (front.toNat - '0'.toNat)) c
  omega

theorem toDigits_value {text : List Char} (h : Canonical text) :
    Nat.toDigits 10 (value text) = text := by
  induction text using List.reverseRecOn with
  | nil => exact absurd rfl h.nonempty
  | append_singleton front c ih =>
    obtain ⟨hten, hc⟩ := digitChar_toNat (h.digits c (List.mem_append_right _ List.mem_cons_self))
    rw [value_append]
    by_cases hempty : front = []
    · subst hempty
      have hzero : value [] = 0 := rfl
      rw [hzero, Nat.zero_mul, Nat.zero_add, Nat.toDigits_of_lt_base hten, hc, List.nil_append]
    · have hlong : 1 < (front ++ [c]).length := by
        have hpositive := List.length_pos_iff.mpr hempty
        rw [List.length_append, List.length_singleton]
        omega
      have hfirst := h.first hlong
      rw [head_front hempty] at hfirst
      have hfront : Canonical front :=
        ⟨hempty, fun d hd => h.digits d (List.mem_append_left _ hd), fun _ => hfirst⟩
      rw [Nat.mul_comm,
        ← Nat.toDigits_append_toDigits (by decide) (value_pos hfront hfirst) hten, ih hfront,
        Nat.toDigits_of_lt_base hten, hc]

theorem toDigits_length_le {n k : ℕ} (hk : 0 < k) : (Nat.toDigits 10 n).length ≤ k ↔ n < 10 ^ k :=
  Nat.length_toDigits_le_iff (by decide) hk

end Sangtachi.Decimal
