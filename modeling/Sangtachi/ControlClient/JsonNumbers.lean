import Sangtachi.ControlClient.Json
import Mathlib.Data.Nat.Digits.Lemmas

/-! # Numbers of the JSON text

An integer is read back from the digits that the writer gives it, and the writer needs no more
digits than stood in the text. -/
namespace Sangtachi.Json

open Sangtachi.BigEndian (U8)
open Sangtachi.Utf8 (byte toNat_byte)

/-- What follows cannot be taken for a part of a number. -/
def Stops (rest : Bytes) : Prop :=
  ∀ c ∈ rest.head?, isDigit c = false ∧ c ≠ 0x2E ∧ c ≠ 0x65 ∧ c ≠ 0x45

theorem isDigit_iff (c : U8) : isDigit c = true ↔ 0x30 ≤ c.toNat ∧ c.toNat ≤ 0x39 := by
  revert c
  decide +kernel

def valueOf (magnitude : ℕ) (digits : List ℕ) : ℕ := digits.foldl (fun m d => m * 10 + d) magnitude

theorem le_valueOf (magnitude : ℕ) (digits : List ℕ) : magnitude ≤ valueOf magnitude digits := by
  induction digits generalizing magnitude with
  | nil => exact le_refl _
  | cons d digits ih =>
    have hrest := ih (magnitude * 10 + d)
    unfold valueOf at hrest ⊢
    rw [List.foldl_cons]
    omega

theorem valueOf_digits (n : ℕ) : valueOf 0 (Nat.digits 10 n).reverse = n := by
  have hfold := Nat.ofDigits_digits 10 n
  rw [Nat.ofDigits_eq_foldr] at hfold
  unfold valueOf
  rw [List.foldl_reverse]
  calc (Nat.digits 10 n).foldr (fun d m => m * 10 + d) 0
      = (Nat.digits 10 n).foldr (fun d m => ((d : ℕ) : ℕ) + 10 * m) 0 := by
        congr 1
        funext d m
        omega
    _ = n := hfold

theorem scanDigits_digits {limit : ℕ} {digits : List ℕ} (hdigit : ∀ d ∈ digits, d < 10)
    {magnitude : ℕ} (hlimit : valueOf magnitude digits ≤ limit) {rest : Bytes}
    (hstop : ∀ c ∈ rest.head?, isDigit c = false) :
    scanDigits limit true magnitude (digits.map (fun d => byte (0x30 + d)) ++ rest) =
      (true, valueOf magnitude digits, rest) := by
  induction digits generalizing magnitude with
  | nil =>
    cases rest with
    | nil => rfl
    | cons c rest =>
      have hc := hstop c rfl
      simp [scanDigits, hc, valueOf]
  | cons d digits ih =>
    have hd := hdigit d List.mem_cons_self
    have hn : (byte (0x30 + d)).toNat = 0x30 + d := toNat_byte (by omega)
    have hdig : isDigit (byte (0x30 + d)) = true := by
      rw [isDigit_iff, hn]
      omega
    have hnext : magnitude * 10 + d ≤ valueOf magnitude (d :: digits) :=
      le_valueOf (magnitude * 10 + d) digits
    have hfits : ¬ (limit - d) / 10 < magnitude := by omega
    have hrest := ih (fun x hx => hdigit x (List.mem_cons_of_mem _ hx))
      (show valueOf (magnitude * 10 + d) digits ≤ limit from hlimit)
    rw [List.map_cons, List.cons_append, scanDigits, if_pos hdig, hn, Nat.add_sub_cancel_left]
    simp only [hfits, decide_false, Bool.not_false, Bool.and_true, if_true]
    exact hrest

theorem scanDigits_sound {limit : ℕ} {fits fits' : Bool} {magnitude magnitude' : ℕ}
    {rest rest' : Bytes} (h : scanDigits limit fits magnitude rest = (fits', magnitude', rest')) :
    rest'.length ≤ rest.length ∧
    magnitude' < (magnitude + 1) * 10 ^ (rest.length - rest'.length) := by
  induction rest generalizing fits magnitude with
  | nil =>
    simp only [scanDigits, Prod.mk.injEq] at h
    obtain ⟨-, rfl, rfl⟩ := h
    simp
  | cons c rest ih =>
    rw [scanDigits] at h
    split_ifs at h with hdigit
    · rw [isDigit_iff] at hdigit
      obtain ⟨hle, hlt⟩ := ih h
      rw [List.length_cons]
      refine ⟨by omega, hlt.trans_le ?_⟩
      have hpow : rest.length + 1 - rest'.length = rest.length - rest'.length + 1 := by omega
      rw [hpow, Nat.pow_succ, Nat.mul_comm (10 ^ _) 10, ← Nat.mul_assoc]
      apply Nat.mul_le_mul_right
      split <;> omega
    · simp only [Prod.mk.injEq] at h
      obtain ⟨-, rfl, rfl⟩ := h
      simp

/-! ## The writer's digits -/

theorem decimal_pos {n : ℕ} (h : n ≠ 0) :
    decimal n = (Nat.digits 10 n).reverse.map fun d => byte (0x30 + d) := if_neg h

theorem decimal_head (n : ℕ) :
    ∃ c tail, decimal n = c :: tail ∧ isDigit c = true ∧ (n ≠ 0 → c ≠ zero) := by
  by_cases hn : n = 0
  · exact ⟨zero, [], if_pos hn, by decide, fun h => absurd hn h⟩
  · have hne : Nat.digits 10 n ≠ [] := Nat.digits_ne_nil_iff_ne_zero.mpr hn
    have hlast := Nat.getLast_digit_ne_zero 10 hn
    have hten : (Nat.digits 10 n).getLast hne < 10 :=
      Nat.digits_lt_base (by decide) (List.getLast_mem hne)
    have hrev : (Nat.digits 10 n).reverse =
      (Nat.digits 10 n).getLast hne :: ((Nat.digits 10 n).dropLast).reverse := by
      conv_lhs => rw [← List.dropLast_append_getLast hne]
      rw [List.reverse_append]
      rfl
    have hbyte : (byte (0x30 + (Nat.digits 10 n).getLast hne)).toNat =
      0x30 + (Nat.digits 10 n).getLast hne :=
      toNat_byte (by omega)
    refine ⟨byte (0x30 + (Nat.digits 10 n).getLast hne), _, by
      rw [decimal_pos hn, hrev]; rfl, ?_, fun _ => ?_⟩
    · rw [isDigit_iff, hbyte]
      omega
    · intro hzero
      rw [hzero] at hbyte
      have hthirty : zero.toNat = 0x30 := rfl
      omega

theorem decimal_length_le {n k : ℕ} (hk : 1 ≤ k) (h : n < 10 ^ k) : (decimal n).length ≤ k := by
  by_cases hn : n = 0
  · rw [decimal, if_pos hn]
    exact hk
  · rw [decimal_pos hn, List.length_map, List.length_reverse, Nat.length_digits 10 n (by decide) hn]
    exact Nat.log_lt_of_lt_pow hn h

theorem parseIntegerPart_decimal {negative : Bool} {n : ℕ} (h : n ≤ magnitudeLimit negative)
    {rest : Bytes} (hstop : ∀ c ∈ rest.head?, isDigit c = false) :
    parseIntegerPart negative (decimal n ++ rest) = .ok (true, n, rest) := by
  by_cases hn : n = 0
  · subst hn
    have htext : decimal 0 ++ rest = zero :: rest := rfl
    rw [htext]
    cases rest with
    | nil => rfl
    | cons c rest =>
      have hc := hstop c rfl
      unfold parseIntegerPart
      dsimp only
      rw [if_neg (by decide), if_pos rfl, if_neg (by simp [hc])]
  · obtain ⟨c, tail, htext, hdigit, hzero⟩ := decimal_head n
    have hscan : scanDigits (magnitudeLimit negative) true 0 (decimal n ++ rest) =
      (true, n, rest) := by
      have hvalue := valueOf_digits n
      rw [decimal_pos hn, scanDigits_digits _ (by rw [hvalue]; exact h) hstop, hvalue]
      intro d hd
      exact Nat.digits_lt_base (by decide) (List.mem_reverse.mp hd)
    rw [htext, List.cons_append] at hscan ⊢
    unfold parseIntegerPart
    dsimp only
    rw [if_neg (by simp [hdigit]), if_neg (hzero hn), hscan]

theorem parseFraction_stops {rest : Bytes} (h : Stops rest) :
    parseFraction rest = .ok (true, rest) := by
  cases rest with
  | nil => rfl
  | cons c rest => exact if_neg (h c rfl).2.1

theorem parseExponent_stops {rest : Bytes} (h : Stops rest) (integral : Bool) :
    parseExponent integral rest = .ok (integral, rest) := by
  cases rest with
  | nil => rfl
  | cons c rest => exact if_neg (not_or.mpr ⟨(h c rfl).2.2.1, (h c rfl).2.2.2⟩)

theorem parseNumber_integerText (n : Int64Value) {rest : Bytes} (h : Stops rest) :
    parseNumber (integerText n ++ rest) = .ok (.integer n, rest) := by
  obtain ⟨n, hlow, hhigh⟩ := n
  have hunsigned : ∀ negative : Bool, n.natAbs ≤ magnitudeLimit negative →
      toInteger negative n.natAbs = .integer ⟨n, hlow, hhigh⟩ →
      parseUnsigned negative (decimal n.natAbs ++ rest) =
        .ok (.integer ⟨n, hlow, hhigh⟩, rest) := by
    intro negative hlimit hvalue
    unfold parseUnsigned
    rw [parseIntegerPart_decimal hlimit fun c hc => (h c hc).1]
    dsimp only
    rw [parseFraction_stops h]
    dsimp only
    rw [parseExponent_stops h]
    dsimp only
    rw [if_neg (by decide), hvalue]
  unfold integerText
  by_cases hneg : n < 0
  · rw [if_pos hneg]
    change parseNumber (minus :: (decimal n.natAbs ++ rest)) = _
    unfold parseNumber
    dsimp only
    rw [if_pos rfl]
    have hlimit : n.natAbs ≤ magnitudeLimit true := by
      simp only [magnitudeLimit, if_true]
      omega
    apply hunsigned true hlimit
    unfold toInteger
    rw [dif_pos hlimit]
    congr 2
    simp only [if_true]
    omega
  · rw [if_neg hneg]
    obtain ⟨c, tail, htext, hdigit, -⟩ := decimal_head n.natAbs
    have hlimit : n.natAbs ≤ magnitudeLimit false := by
      simp only [magnitudeLimit, Bool.false_eq_true, if_false]
      omega
    have hvalue : toInteger false n.natAbs = .integer ⟨n, hlow, hhigh⟩ := by
      unfold toInteger
      rw [dif_pos hlimit]
      congr 2
      simp only [Bool.false_eq_true, if_false]
      omega
    have hread := hunsigned false hlimit hvalue
    change parseNumber (decimal n.natAbs ++ rest) = _
    rw [htext, List.cons_append] at hread ⊢
    unfold parseNumber
    dsimp only
    rw [if_neg, hread]
    rintro rfl
    exact absurd hdigit (by decide)

/-! ## What is read as an integer -/

theorem skipDigits_length (rest : Bytes) : (skipDigits rest).length ≤ rest.length :=
  (List.dropWhile_sublist _).length_le

theorem parseFraction_length {rest rest' : Bytes} {integral : Bool}
    (h : parseFraction rest = .ok (integral, rest')) : rest'.length ≤ rest.length := by
  cases rest with
  | nil =>
    cases h
    exact le_refl _
  | cons c tail =>
    unfold parseFraction at h
    dsimp only at h
    split_ifs at h with hdot
    · cases tail with
      | nil => cases h
      | cons d tail =>
        dsimp only at h
        split_ifs at h
        cases h
        exact (skipDigits_length _).trans (Nat.le_succ _)
    · cases h
      exact le_refl _

theorem parseExponent_length {rest rest' : Bytes} {integral integral' : Bool}
    (h : parseExponent integral rest = .ok (integral', rest')) : rest'.length ≤ rest.length := by
  cases rest with
  | nil =>
    cases h
    exact le_refl _
  | cons c tail =>
    unfold parseExponent at h
    dsimp only at h
    split_ifs at h with hexp
    · cases tail with
      | nil => cases h
      | cons s more =>
        dsimp only at h
        rw [List.length_cons, List.length_cons]
        split_ifs at h with hsign
        · cases more with
          | nil => cases h
          | cons d more =>
            dsimp only at h
            split_ifs at h
            cases h
            have hle := skipDigits_length (d :: more)
            omega
        · dsimp only at h
          split_ifs at h
          cases h
          exact (skipDigits_length (s :: more)).trans (Nat.le_succ _)
    · cases h
      exact le_refl _

theorem parseIntegerPart_sound {negative fits : Bool} {magnitude : ℕ} {rest rest' : Bytes}
    (h : parseIntegerPart negative rest = .ok (fits, magnitude, rest')) :
    (decimal magnitude).length + rest'.length ≤ rest.length := by
  cases rest with
  | nil => cases h
  | cons c tail =>
    unfold parseIntegerPart at h
    dsimp only at h
    split_ifs at h with hdigit hzero
    · cases tail with
      | nil =>
        cases h
        exact le_refl _
      | cons d tail =>
        dsimp only at h
        split_ifs at h
        cases h
        rw [List.length_cons (a := c), Nat.add_comm]
        exact le_refl _
    · have hscan := Except.ok.inj h
      -- the first digit is taken, so that at least one was
      have hfirst : scanDigits (magnitudeLimit negative) true 0 (c :: tail) =
          (fits, magnitude, rest') := hscan
      obtain ⟨hle, hlt⟩ := scanDigits_sound hfirst
      rw [Nat.zero_add, Nat.one_mul] at hlt
      have hone : rest'.length ≤ tail.length := by
        rw [scanDigits, if_pos (by simpa using hdigit)] at hfirst
        exact (scanDigits_sound hfirst).1
      rw [List.length_cons] at hlt ⊢
      have hdecimal := decimal_length_le (by omega) hlt
      omega

theorem toInteger_sound (negative : Bool) (magnitude : ℕ) :
    toInteger negative magnitude = .otherNumber ∨
      ∃ n : Int64Value, toInteger negative magnitude = .integer n ∧ n.1.natAbs = magnitude ∧
        (n.1 < 0 → negative = true) := by
  unfold toInteger
  by_cases hlimit : magnitude ≤ magnitudeLimit negative
  · rw [dif_pos hlimit]
    refine .inr ⟨_, rfl, ?_, ?_⟩
    · cases negative <;> simp
    · cases negative <;> simp
  · rw [dif_neg hlimit]
    exact .inl rfl

theorem parseNumber_sound {rest rest' : Bytes} {v : Value} (h : parseNumber rest = .ok (v, rest')) :
    v = .otherNumber ∧ rest'.length ≤ rest.length ∨
      ∃ n, v = .integer n ∧ (integerText n).length + rest'.length ≤ rest.length := by
  have hunsigned : ∀ (negative : Bool) (rest : Bytes),
    parseUnsigned negative rest = .ok (v, rest') →
      v = .otherNumber ∧ rest'.length ≤ rest.length ∨
        ∃ n : Int64Value, v = .integer n ∧
          (decimal n.1.natAbs).length + rest'.length ≤ rest.length ∧
          (n.1 < 0 → negative = true) := by
    intro negative rest hread
    unfold parseUnsigned at hread
    cases hpart : parseIntegerPart negative rest with
    | error e =>
      rw [hpart] at hread
      cases hread
    | ok part =>
      obtain ⟨fits, magnitude, rest₁⟩ := part
      rw [hpart] at hread
      dsimp only at hread
      cases hfraction : parseFraction rest₁ with
      | error e =>
        rw [hfraction] at hread
        cases hread
      | ok fraction =>
        obtain ⟨integral, rest₂⟩ := fraction
        rw [hfraction] at hread
        dsimp only at hread
        cases hexponent : parseExponent integral rest₂ with
        | error e =>
          rw [hexponent] at hread
          cases hread
        | ok exponent =>
          obtain ⟨integral', rest₃⟩ := exponent
          rw [hexponent] at hread
          dsimp only at hread
          have hlength := parseIntegerPart_sound hpart
          have hlength' := parseFraction_length hfraction
          have hlength'' := parseExponent_length hexponent
          split_ifs at hread with hother
          · cases hread
            exact .inl ⟨rfl, by omega⟩
          · simp only [Except.ok.injEq, Prod.mk.injEq] at hread
            obtain ⟨rfl, rfl⟩ := hread
            rcases toInteger_sound negative magnitude with hvalue | ⟨n, hvalue, habs, hneg⟩
            · exact .inl ⟨hvalue, by omega⟩
            · exact .inr ⟨n, hvalue, by rw [habs]; omega, hneg⟩
  cases rest with
  | nil => cases h
  | cons c tail =>
    unfold parseNumber at h
    dsimp only at h
    split_ifs at h with hminus
    · rcases hunsigned true tail h with ⟨rfl, hle⟩ | ⟨n, rfl, hle, -⟩
      · exact .inl ⟨rfl, hle.trans (Nat.le_succ _)⟩
      · refine .inr ⟨n, rfl, ?_⟩
        unfold integerText
        rw [List.length_cons]
        split
        · rw [List.length_cons]
          omega
        · omega
    · rcases hunsigned false (c :: tail) h with ⟨rfl, hle⟩ | ⟨n, rfl, hle, hneg⟩
      · exact .inl ⟨rfl, hle⟩
      · refine .inr ⟨n, rfl, ?_⟩
        unfold integerText
        rwa [if_neg fun hlt => absurd (hneg hlt) (by decide)]

end Sangtachi.Json
