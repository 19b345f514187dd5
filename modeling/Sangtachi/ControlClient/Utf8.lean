import Sangtachi.Core.BigEndian
import Sangtachi.Core.PrefixCode

/-! # UTF-8

The client accepts a text by a table: each first byte allows a range for the second one. The table
lets exactly the encodings of Unicode scalar values through. -/
namespace Sangtachi.Utf8

open Sangtachi.BigEndian (U8)

def isContinuation (b : U8) : Bool := b &&& 0xC0 == 0x80

/-- A byte in memory. `none` is a read outside of the text. -/
def load (text : List U8) (i : ℕ) : Option U8 := text[i]?

/-- The byte `i` behind `pos`; the inner `none` stands for the -1 behind the end. -/
def byteAt (text : List U8) (pos i : ℕ) : Option (Option U8) :=
  if pos + i < text.length then (load text (pos + i)).map some else some none

/-- The length that a first byte announces, and the range of the second byte. -/
def leadRange (b0 : U8) : Option (ℕ × U8 × U8) :=
  if 0xC2 ≤ b0 ∧ b0 ≤ 0xDF then some (2, 0x80, 0xBF)
  else if b0 = 0xE0 then some (3, 0xA0, 0xBF)
  else if (0xE1 ≤ b0 ∧ b0 ≤ 0xEC) ∨ b0 = 0xEE ∨ b0 = 0xEF then some (3, 0x80, 0xBF)
  else if b0 = 0xED then some (3, 0x80, 0x9F)
  else if b0 = 0xF0 then some (4, 0x90, 0xBF)
  else if 0xF1 ≤ b0 ∧ b0 ≤ 0xF3 then some (4, 0x80, 0xBF)
  else if b0 = 0xF4 then some (4, 0x80, 0x8F)
  else none

/-- The loop over the bytes behind the second one. -/
def tailLength (text : List U8) (pos length : ℕ) : List ℕ → Option ℕ
  | [] => some length
  | i :: rest =>
    match byteAt text pos i with
    | none => none
    | some none => some 0
    | some (some b) => if isContinuation b then tailLength text pos length rest else some 0

/-- The length of the character at `pos`, 0 when it is malformed. `none` would be a read outside
of the text. -/
def utf8Length (text : List U8) (pos : ℕ) : Option ℕ :=
  match byteAt text pos 0 with
  | none => none
  | some none => some 0
  | some (some b0) =>
    if b0 < 0x80 then some 1
    else
      match leadRange b0 with
      | none => some 0
      | some (length, lo, hi) =>
        match byteAt text pos 1 with
        | none => none
        | some none => some 0
        | some (some b1) =>
          if b1 < lo ∨ hi < b1 then some 0
          else tailLength text pos length (List.range' 2 (length - 2))

def byte (n : ℕ) : U8 := BitVec.ofNat 8 n

/-- The bytes that `append_utf8` appends. -/
def encode (cp : ℕ) : List U8 :=
  if cp < 0x80 then [byte cp]
  else if cp < 0x800 then [byte (0xC0 ||| (cp >>> 6)), byte (0x80 ||| (cp &&& 0x3F))]
  else if cp < 0x10000 then
    [byte (0xE0 ||| (cp >>> 12)), byte (0x80 ||| ((cp >>> 6) &&& 0x3F)),
      byte (0x80 ||| (cp &&& 0x3F))]
  else
    [byte (0xF0 ||| (cp >>> 18)), byte (0x80 ||| ((cp >>> 12) &&& 0x3F)),
      byte (0x80 ||| ((cp >>> 6) &&& 0x3F)), byte (0x80 ||| (cp &&& 0x3F))]

def appendUtf8 (out : List U8) (cp : ℕ) : List U8 := out ++ encode cp

/-- The loop of `is_valid_utf8`, which takes at least one byte a round. -/
def validFrom (text : List U8) : ℕ → ℕ → Bool
  | 0, pos => decide (text.length ≤ pos)
  | rounds + 1, pos =>
    if pos < text.length then
      match utf8Length text pos with
      | none => false
      | some 0 => false
      | some n => validFrom text rounds (pos + n)
    else true

def isValidUtf8 (text : List U8) : Bool := validFrom text text.length 0

/-- A Unicode scalar value: a code point that is no surrogate. -/
def Scalar (cp : ℕ) : Prop := cp ≤ 0x10FFFF ∧ ¬ (0xD800 ≤ cp ∧ cp ≤ 0xDFFF)

instance (cp : ℕ) : Decidable (Scalar cp) := inferInstanceAs (Decidable (_ ∧ _))

/-! ## The reads stay inside -/

theorem byteAt_eq (text : List U8) (pos i : ℕ) : byteAt text pos i = some (text.drop pos)[i]? := by
  unfold byteAt load
  rw [List.getElem?_drop]
  by_cases h : pos + i < text.length
  · rw [if_pos h, List.getElem?_eq_getElem h]
    rfl
  · rw [if_neg h, List.getElem?_eq_none (by omega)]

def charLength (rest : List U8) : ℕ :=
  match rest with
  | [] => 0
  | b0 :: rest =>
    if b0 < 0x80 then 1
    else
      match leadRange b0, rest with
      | none, _ => 0
      | some _, [] => 0
      | some (length, lo, hi), b1 :: rest =>
        if b1 < lo ∨ hi < b1 then 0
        else if (rest.take (length - 2)).length = length - 2 ∧
          (rest.take (length - 2)).all isContinuation
          then length
        else 0

theorem tailLength_eq (text : List U8) (pos length : ℕ) (k i : ℕ) :
    tailLength text pos length (List.range' i k) =
      some (if (((text.drop pos).drop i).take k).length = k ∧
        (((text.drop pos).drop i).take k).all isContinuation then length else 0) := by
  induction k generalizing i with
  | zero => simp [tailLength]
  | succ k ih =>
    rw [List.range'_succ, tailLength, byteAt_eq]
    cases hb : (text.drop pos)[i]? with
    | none =>
      have hend : (text.drop pos).length ≤ i := List.getElem?_eq_none_iff.mp hb
      rw [List.drop_eq_nil_of_le hend]
      simp
    | some b =>
      obtain ⟨hlt, hget⟩ := List.getElem?_eq_some_iff.mp hb
      rw [List.drop_eq_getElem_cons hlt, hget]
      dsimp only
      by_cases hcont : isContinuation b = true
      · rw [if_pos hcont, ih]
        simp [hcont]
      · rw [if_neg hcont]
        simp [hcont]

theorem utf8Length_eq (text : List U8) (pos : ℕ) :
    utf8Length text pos = some (charLength (text.drop pos)) := by
  have htail := tailLength_eq text pos
  unfold utf8Length
  rw [byteAt_eq, byteAt_eq]
  cases hrest : text.drop pos with
  | nil => rfl
  | cons b0 rest =>
    rw [hrest] at htail
    simp only [List.getElem?_cons_zero, charLength]
    by_cases hascii : b0 < 0x80
    · rw [if_pos hascii, if_pos hascii]
    rw [if_neg hascii, if_neg hascii]
    cases hlead : leadRange b0 with
    | none => rfl
    | some lead =>
      obtain ⟨length, lo, hi⟩ := lead
      cases rest with
      | nil => rfl
      | cons b1 rest =>
        simp only [List.getElem?_cons_succ, List.getElem?_cons_zero]
        by_cases hsecond : b1 < lo ∨ hi < b1
        · rw [if_pos hsecond, if_pos hsecond]
        · rw [if_neg hsecond, if_neg hsecond, htail]
          rfl

/-! ## The table and the encoder -/

theorem isContinuation_iff (b : U8) : isContinuation b = true ↔
      0x80 ≤ b.toNat ∧ b.toNat ≤ 0xBF := by
  revert b
  decide

theorem or_high (high i : ℕ) {low : ℕ} (h : low < 2 ^ i) :
    2 ^ i * high ||| low = 2 ^ i * high + low :=
  (Nat.two_pow_add_eq_or_of_lt h high).symm

theorem continuation_byte (n : ℕ) : byte (0x80 ||| (n &&& 0x3F)) = byte (0x80 + n % 64) := by
  have hand : n &&& 0x3F = n % 64 := Nat.and_two_pow_sub_one_eq_mod n 6
  have hor := or_high 2 6 (Nat.mod_lt n (show 2 ^ 6 > 0 by decide))
  rw [hand]
  exact congrArg byte hor

theorem encode_two {cp : ℕ} (hlow : 0x80 ≤ cp) (hhigh : cp < 0x800) :
    encode cp = [byte (0xC0 + cp / 64), byte (0x80 + cp % 64)] := by
  have hshift : cp >>> 6 = cp / 64 := Nat.shiftRight_eq_div_pow cp 6
  have hor := or_high 6 5 (show cp / 64 < 2 ^ 5 by omega)
  unfold encode
  rw [if_neg (by omega), if_pos hhigh, continuation_byte, hshift]
  exact congrArg (fun first => [byte first, byte (0x80 + cp % 64)]) hor

theorem encode_three {cp : ℕ} (hlow : 0x800 ≤ cp) (hhigh : cp < 0x10000) :
    encode cp = [byte (0xE0 + cp / 4096), byte (0x80 + cp / 64 % 64), byte (0x80 + cp % 64)] := by
  have hshift : cp >>> 12 = cp / 4096 := Nat.shiftRight_eq_div_pow cp 12
  have hmid : cp >>> 6 = cp / 64 := Nat.shiftRight_eq_div_pow cp 6
  have hor := or_high 14 4 (show cp / 4096 < 2 ^ 4 by omega)
  unfold encode
  rw [if_neg (by omega), if_neg (by omega), if_pos hhigh, continuation_byte,
    continuation_byte, hshift, hmid]
  exact congrArg (fun first => [byte first, byte (0x80 + cp / 64 % 64), byte (0x80 + cp % 64)]) hor

theorem encode_four {cp : ℕ} (hlow : 0x10000 ≤ cp) (hhigh : cp ≤ 0x10FFFF) :
    encode cp =
      [byte (0xF0 + cp / 262144), byte (0x80 + cp / 4096 % 64), byte (0x80 + cp / 64 % 64),
      byte (0x80 + cp % 64)] := by
  have hshift : cp >>> 18 = cp / 262144 := Nat.shiftRight_eq_div_pow cp 18
  have hmid : cp >>> 12 = cp / 4096 := Nat.shiftRight_eq_div_pow cp 12
  have hmid' : cp >>> 6 = cp / 64 := Nat.shiftRight_eq_div_pow cp 6
  have hor := or_high 30 3 (show cp / 262144 < 2 ^ 3 by omega)
  unfold encode
  rw [if_neg (by omega), if_neg (by omega), if_neg (by omega), continuation_byte, continuation_byte,
    continuation_byte, hshift, hmid, hmid']
  exact congrArg
    (fun first => [byte first, byte (0x80 + cp / 4096 % 64), byte (0x80 + cp / 64 % 64),
    byte (0x80 + cp % 64)]) hor

structure LeadRow (first length lo hi : ℕ) : Prop where
  two : first ≤ 0xDF → length = 2 ∧ lo = 0x80 ∧ hi = 0xBF
  three : 0xE0 ≤ first → first ≤ 0xEF →
    length = 3 ∧ lo = (if first = 0xE0 then 0xA0 else 0x80) ∧
    hi = (if first = 0xED then 0x9F else 0xBF)
  four : 0xF0 ≤ first →
    length = 4 ∧ lo = (if first = 0xF0 then 0x90 else 0x80) ∧
    hi = (if first = 0xF4 then 0x8F else 0xBF)
  known : 0xC2 ≤ first ∧ first ≤ 0xF4

instance (first length lo hi : ℕ) : Decidable (LeadRow first length lo hi) :=
  decidable_of_iff ((first ≤ 0xDF → length = 2 ∧ lo = 0x80 ∧ hi = 0xBF) ∧
    (0xE0 ≤ first → first ≤ 0xEF → length = 3 ∧ lo = (if first = 0xE0 then 0xA0 else 0x80) ∧
      hi = (if first = 0xED then 0x9F else 0xBF)) ∧
    (0xF0 ≤ first → length = 4 ∧ lo = (if first = 0xF0 then 0x90 else 0x80) ∧
      hi = (if first = 0xF4 then 0x8F else 0xBF)) ∧ 0xC2 ≤ first ∧ first ≤ 0xF4)
    ⟨fun h => ⟨h.1, h.2.1, h.2.2.1, h.2.2.2⟩, fun h => ⟨h.two, h.three, h.four, h.known⟩⟩

theorem leadRange_none (b0 : U8) : leadRange b0 = none → b0.toNat < 0xC2 ∨ 0xF4 < b0.toNat := by
  revert b0
  decide +kernel

theorem leadRange_row {b0 lo hi : U8} {length : ℕ} (h : leadRange b0 = some (length, lo, hi)) :
    LeadRow b0.toNat length lo.toNat hi.toNat := by
  have hall : ∀ b0 : U8, (leadRange b0).all
      (fun l => decide (LeadRow b0.toNat l.1 l.2.1.toNat l.2.2.toNat)) = true := by
    decide +kernel
  have hrow := hall b0
  rw [h] at hrow
  exact of_decide_eq_true hrow

theorem toNat_byte {n : ℕ} (h : n < 256) : (byte n).toNat = n := by
  rw [byte, BitVec.toNat_ofNat, Nat.mod_eq_of_lt h]

theorem byte_toNat (b : U8) : byte b.toNat = b := by
  apply BitVec.eq_of_toNat_eq
  exact toNat_byte b.isLt

theorem leadRange_byte {n : ℕ} (hlow : 0xC2 ≤ n) (hhigh : n ≤ 0xF4) :
    ¬ byte n < 0x80 ∧ ∃ length lo hi, leadRange (byte n) = some (length, lo, hi) ∧
      LeadRow n length lo.toNat hi.toNat := by
  have hn : (byte n).toNat = n := toNat_byte (by omega)
  constructor
  · rw [BitVec.lt_def, hn]
    change ¬ n < 0x80
    omega
  · cases hlead : leadRange (byte n) with
    | none =>
      have hnone := leadRange_none _ hlead
      omega
    | some lead =>
      obtain ⟨length, lo, hi⟩ := lead
      have hrow := leadRange_row hlead
      rw [hn] at hrow
      exact ⟨length, lo, hi, rfl, hrow⟩

theorem charLength_row {b0 lo hi : U8} {length n : ℕ} (hascii : ¬ b0 < 0x80)
    (hlead : leadRange b0 = some (length, lo, hi)) (hn : n < 256) (hlo : lo.toNat ≤ n)
    (hhi : n ≤ hi.toNat) (tail : List U8) (hlength : length = tail.length + 2)
    (htail : tail.all isContinuation = true)
    (rest : List U8) : charLength (b0 :: byte n :: (tail ++ rest)) = length := by
  have hsecond : ¬ (byte n < lo ∨ hi < byte n) := by
    rw [BitVec.lt_def, BitVec.lt_def, toNat_byte hn]
    omega
  have hcount : length - 2 = tail.length := by omega
  unfold charLength
  dsimp only
  rw [if_neg hascii, hlead]
  dsimp only
  rw [if_neg hsecond, hcount, List.take_left, if_pos ⟨rfl, htail⟩]

theorem isContinuation_byte (n : ℕ) : isContinuation (byte (0x80 + n % 64)) = true := by
  have hmod : n % 64 < 64 := Nat.mod_lt n (by decide)
  rw [isContinuation_iff, toNat_byte (by omega)]
  omega

theorem charLength_encode {cp : ℕ} (h : Scalar cp) (rest : List U8) :
    charLength (encode cp ++ rest) = (encode cp).length := by
  obtain ⟨hmax, hsurrogate⟩ := h
  rcases Nat.lt_or_ge cp 0x80 with hone | hone
  · have hencode : encode cp = [byte cp] := by
      unfold encode
      rw [if_pos hone]
    have hascii : byte cp < 0x80 := by
      rw [BitVec.lt_def, toNat_byte (by omega)]
      exact hone
    rw [hencode]
    exact if_pos hascii
  rcases Nat.lt_or_ge cp 0x800 with htwo | htwo
  · obtain ⟨hascii, length, lo, hi, hlead, hrow⟩ :=
      leadRange_byte (n := 0xC0 + cp / 64) (by omega) (by omega)
    obtain ⟨rfl, hlo, hhi⟩ := hrow.two (by omega)
    rw [encode_two hone htwo]
    exact charLength_row hascii hlead (by omega) (by omega) (by omega) [] rfl rfl rest
  rcases Nat.lt_or_ge cp 0x10000 with hthree | hthree
  · obtain ⟨hascii, length, lo, hi, hlead, hrow⟩ :=
      leadRange_byte (n := 0xE0 + cp / 4096) (by omega) (by omega)
    obtain ⟨rfl, hlo, hhi⟩ := hrow.three (by omega) (by omega)
    rw [encode_three htwo hthree]
    apply charLength_row hascii hlead (by omega) _ _ [byte (0x80 + cp % 64)] rfl _ rest
    · split_ifs at hlo <;> omega
    · split_ifs at hhi <;> omega
    · rw [List.all_cons, isContinuation_byte]
      rfl
  · obtain ⟨hascii, length, lo, hi, hlead, hrow⟩ :=
      leadRange_byte (n := 0xF0 + cp / 262144) (by omega) (by omega)
    obtain ⟨rfl, hlo, hhi⟩ := hrow.four (by omega)
    rw [encode_four hthree hmax]
    apply charLength_row hascii hlead (by omega) _ _
      [byte (0x80 + cp / 64 % 64), byte (0x80 + cp % 64)] rfl _ rest
    · split_ifs at hlo <;> omega
    · split_ifs at hhi <;> omega
    · rw [List.all_cons, List.all_cons, isContinuation_byte, isContinuation_byte]
      rfl

theorem eq_encode_two {b0 b1 : U8} (h0 : 0xC2 ≤ b0.toNat ∧ b0.toNat ≤ 0xDF)
    (h1 : 0x80 ≤ b1.toNat ∧ b1.toNat ≤ 0xBF) : ∃ cp, Scalar cp ∧ [b0, b1] = encode cp := by
  refine ⟨(b0.toNat - 0xC0) * 64 + (b1.toNat - 0x80), ⟨by omega, by omega⟩, ?_⟩
  have hfirst : 0xC0 + ((b0.toNat - 0xC0) * 64 + (b1.toNat - 0x80)) / 64 = b0.toNat := by omega
  have hnext : 0x80 + ((b0.toNat - 0xC0) * 64 + (b1.toNat - 0x80)) % 64 = b1.toNat := by omega
  rw [encode_two (by omega) (by omega), hfirst, hnext, byte_toNat, byte_toNat]

/-- The bounds of the second byte keep overlong forms and surrogates out. -/
theorem eq_encode_three {b0 b1 b2 : U8} (h0 : 0xE0 ≤ b0.toNat ∧ b0.toNat ≤ 0xEF)
    (h1 : (if b0.toNat = 0xE0 then 0xA0 else 0x80) ≤ b1.toNat ∧
      b1.toNat ≤ (if b0.toNat = 0xED then 0x9F else 0xBF))
    (h2 : 0x80 ≤ b2.toNat ∧ b2.toNat ≤ 0xBF) : ∃ cp, Scalar cp ∧ [b0, b1, b2] = encode cp := by
  generalize hcp : (b0.toNat - 0xE0) * 4096 + (b1.toNat - 0x80) * 64 + (b2.toNat - 0x80) = cp
  have hsixbit : 0x80 ≤ b1.toNat ∧ b1.toNat ≤ 0xBF := by split_ifs at h1 <;> omega
  have hrange : 0x800 ≤ cp ∧ cp < 0x10000 ∧ ¬ (0xD800 ≤ cp ∧ cp ≤ 0xDFFF) := by
    split_ifs at h1 <;> omega
  have hfirst : 0xE0 + cp / 4096 = b0.toNat := by omega
  have hnext : 0x80 + cp / 64 % 64 = b1.toNat := by omega
  have hlast : 0x80 + cp % 64 = b2.toNat := by omega
  refine ⟨cp, ⟨by omega, hrange.2.2⟩, ?_⟩
  rw [encode_three hrange.1 hrange.2.1, hfirst, hnext, hlast, byte_toNat, byte_toNat, byte_toNat]

/-- The bounds of the second byte keep overlong forms and what is above the last code point out. -/
theorem eq_encode_four {b0 b1 b2 b3 : U8} (h0 : 0xF0 ≤ b0.toNat ∧ b0.toNat ≤ 0xF4)
    (h1 : (if b0.toNat = 0xF0 then 0x90 else 0x80) ≤ b1.toNat ∧
      b1.toNat ≤ (if b0.toNat = 0xF4 then 0x8F else 0xBF))
    (h2 : 0x80 ≤ b2.toNat ∧ b2.toNat ≤ 0xBF) (h3 : 0x80 ≤ b3.toNat ∧ b3.toNat ≤ 0xBF) :
    ∃ cp, Scalar cp ∧ [b0, b1, b2, b3] = encode cp := by
  generalize hcp : (b0.toNat - 0xF0) * 262144 + (b1.toNat - 0x80) * 4096 + (b2.toNat - 0x80) * 64 +
    (b3.toNat - 0x80) = cp
  have hsixbit : 0x80 ≤ b1.toNat ∧ b1.toNat ≤ 0xBF := by split_ifs at h1 <;> omega
  have hrange : 0x10000 ≤ cp ∧ cp ≤ 0x10FFFF := by split_ifs at h1 <;> omega
  have hfirst : 0xF0 + cp / 262144 = b0.toNat := by omega
  have hnext : 0x80 + cp / 4096 % 64 = b1.toNat := by omega
  have hthird : 0x80 + cp / 64 % 64 = b2.toNat := by omega
  have hlast : 0x80 + cp % 64 = b3.toNat := by omega
  refine ⟨cp, ⟨hrange.2, by omega⟩, ?_⟩
  rw [encode_four hrange.1 hrange.2, hfirst, hnext, hthird, hlast, byte_toNat,
    byte_toNat, byte_toNat,
    byte_toNat]

theorem charLength_front {text : List U8} (h : 0 < charLength text) :
    ∃ cp rest, Scalar cp ∧ text = encode cp ++ rest := by
  cases text with
  | nil => simp [charLength] at h
  | cons b0 text =>
    by_cases hascii : b0 < 0x80
    · have hlt : b0.toNat < 0x80 := by
        rw [BitVec.lt_def] at hascii
        exact hascii
      refine ⟨b0.toNat, text, ⟨by omega, by omega⟩, ?_⟩
      unfold encode
      rw [if_pos hlt, byte_toNat]
      rfl
    unfold charLength at h
    dsimp only at h
    rw [if_neg hascii] at h
    cases hlead : leadRange b0 with
    | none => simp [hlead] at h
    | some lead =>
      obtain ⟨length, lo, hi⟩ := lead
      have hrow := leadRange_row hlead
      rw [hlead] at h
      cases text with
      | nil => simp at h
      | cons b1 text =>
        dsimp only at h
        split_ifs at h with hsecond htail
        · omega
        · rw [BitVec.lt_def, BitVec.lt_def, not_or, not_lt, not_lt] at hsecond
          obtain ⟨hlow, hhigh⟩ := hrow.known
          rcases Nat.lt_or_ge b0.toNat 0xE0 with htwo | htwo
          · obtain ⟨rfl, hlo, hhi⟩ := hrow.two (by omega)
            obtain ⟨cp, hcp, heq⟩ := eq_encode_two (show 0xC2 ≤ b0.toNat ∧ b0.toNat ≤ 0xDF by omega)
              (show 0x80 ≤ b1.toNat ∧ b1.toNat ≤ 0xBF by omega)
            exact ⟨cp, text, hcp, by rw [← heq]; rfl⟩
          rcases Nat.lt_or_ge b0.toNat 0xF0 with hthree | hthree
          · obtain ⟨rfl, hlo, hhi⟩ := hrow.three (by omega) (by omega)
            rcases text with _ | ⟨b2, text⟩
            · simp at htail
            have hthird : isContinuation b2 = true := by simpa using htail.2
            obtain ⟨cp, hcp, heq⟩ := eq_encode_three ⟨htwo, by omega⟩ (by rwa [hlo, hhi] at hsecond)
              ((isContinuation_iff b2).mp hthird)
            exact ⟨cp, text, hcp, by rw [← heq]; rfl⟩
          · obtain ⟨rfl, hlo, hhi⟩ := hrow.four hthree
            rcases text with _ | ⟨b2, _ | ⟨b3, text⟩⟩
            · simp at htail
            · simp at htail
            have hrest : isContinuation b2 = true ∧ isContinuation b3 = true := by
              simpa using htail.2
            obtain ⟨cp, hcp, heq⟩ := eq_encode_four ⟨hthree, hhigh⟩ (by rwa [hlo, hhi] at hsecond)
              ((isContinuation_iff b2).mp hrest.1) ((isContinuation_iff b3).mp hrest.2)
            exact ⟨cp, text, hcp, by rw [← heq]; rfl⟩
        · omega

theorem charLength_le (text : List U8) : charLength text ≤ text.length := by
  rcases Nat.eq_zero_or_pos (charLength text) with hzero | hpos
  · omega
  · obtain ⟨cp, rest, hcp, rfl⟩ := charLength_front hpos
    rw [charLength_encode hcp, List.length_append]
    exact Nat.le_add_right _ _

theorem encode_ne_nil (cp : ℕ) : encode cp ≠ [] := by
  unfold encode
  split_ifs <;> simp

theorem encode_injective {a b : ℕ} (ha : Scalar a) (hb : Scalar b)
    (h : encode a = encode b) : a = b := by
  have hbytes := congrArg (List.map BitVec.toNat) h
  obtain ⟨hamax, -⟩ := ha
  obtain ⟨hbmax, -⟩ := hb
  have hshape : ∀ cp, cp ≤ 0x10FFFF →
      (cp < 0x80 ∧ encode cp = [byte cp]) ∨
      (0x80 ≤ cp ∧ cp < 0x800 ∧ encode cp = [byte (0xC0 + cp / 64), byte (0x80 + cp % 64)]) ∨
      (0x800 ≤ cp ∧ cp < 0x10000 ∧
        encode cp = [byte (0xE0 + cp / 4096), byte (0x80 + cp / 64 % 64), byte (0x80 + cp % 64)]) ∨
      (0x10000 ≤ cp ∧ encode cp = [byte (0xF0 + cp / 262144), byte (0x80 + cp / 4096 % 64),
        byte (0x80 + cp / 64 % 64), byte (0x80 + cp % 64)]) := by
    intro cp hcp
    rcases Nat.lt_or_ge cp 0x80 with hone | hone
    · exact .inl ⟨hone, if_pos hone⟩
    rcases Nat.lt_or_ge cp 0x800 with htwo | htwo
    · exact .inr (.inl ⟨hone, htwo, encode_two hone htwo⟩)
    rcases Nat.lt_or_ge cp 0x10000 with hthree | hthree
    · exact .inr (.inr (.inl ⟨htwo, hthree, encode_three htwo hthree⟩))
    · exact .inr (.inr (.inr ⟨hthree, encode_four hthree hcp⟩))
  rcases hshape a hamax with ⟨ha, hea⟩ | ⟨ha, ha', hea⟩ | ⟨ha, ha', hea⟩ | ⟨ha, hea⟩ <;>
  rcases hshape b hbmax with ⟨hb, heb⟩ | ⟨hb, hb', heb⟩ | ⟨hb, hb', heb⟩ | ⟨hb, heb⟩ <;>
  · rw [hea, heb] at hbytes
    simp only [List.map_cons, List.map_nil, List.cons.injEq, and_true, byte,
      BitVec.toNat_ofNat] at hbytes
    omega

theorem encode_prefixed : PrefixCode.Prefixed Scalar encode := by
  refine ⟨fun cp _ => encode_ne_nil cp, ?_⟩
  intro a b rest rest' ha hb h
  -- both sides announce the length of their first character
  have hlength : (encode a).length = (encode b).length := by
    rw [← charLength_encode ha rest, h, charLength_encode hb rest']
  exact encode_injective ha hb (List.append_inj_left h hlength)

/-! ## Acceptance -/

theorem validFrom_iff (text : List U8) (rounds pos : ℕ) (h : text.length ≤ pos + rounds) :
    validFrom text rounds pos = true ↔
      ∃ cps : List ℕ, (∀ cp ∈ cps, Scalar cp) ∧ text.drop pos = cps.flatMap encode := by
  induction rounds generalizing pos with
  | zero =>
    rw [validFrom, decide_eq_true_eq]
    refine ⟨fun hend => ⟨[], by simp, List.drop_eq_nil_of_le hend⟩, fun _ => h⟩
  | succ rounds ih =>
    rw [validFrom]
    by_cases hpos : pos < text.length
    · rw [if_pos hpos, utf8Length_eq]
      cases hn : charLength (text.drop pos) with
      | zero =>
        refine ⟨fun hfalse => Bool.noConfusion (show false = true from hfalse), ?_⟩
        rintro ⟨cps, hscalar, htext⟩
        cases cps with
        | nil =>
          rw [List.flatMap_nil, List.drop_eq_nil_iff] at htext
          omega
        | cons cp cps =>
          rw [htext, List.flatMap_cons, charLength_encode (hscalar cp List.mem_cons_self)] at hn
          exact absurd (List.length_eq_zero_iff.mp hn) (encode_ne_nil cp)
      | succ n =>
        obtain ⟨cp, rest, hcp, htext⟩ :=
          charLength_front (show 0 < charLength (text.drop pos) by omega)
        have hlength : n + 1 = (encode cp).length := by
          rw [← hn, htext, charLength_encode hcp]
        have hrest : text.drop (pos + (n + 1)) = rest := by
          rw [← List.drop_drop, htext, hlength, List.drop_left]
        change validFrom text rounds (pos + (n + 1)) = true ↔ _
        rw [ih (pos + (n + 1)) (by omega), hrest]
        constructor
        · rintro ⟨cps, hscalar, rfl⟩
          refine ⟨cp :: cps, fun c hc => ?_, htext⟩
          rcases List.mem_cons.mp hc with rfl | hc
          · exact hcp
          · exact hscalar c hc
        · rintro ⟨cps, hscalar, hall⟩
          cases cps with
          | nil =>
            rw [List.flatMap_nil, List.drop_eq_nil_iff] at hall
            omega
          | cons c cps =>
            rw [htext, List.flatMap_cons] at hall
            obtain ⟨-, hsame⟩ := encode_prefixed.rest_eq hcp (hscalar c List.mem_cons_self) hall
            exact ⟨cps, fun c hc => hscalar c (List.mem_cons_of_mem _ hc), hsame⟩
    · rw [if_neg hpos]
      refine ⟨fun _ => ⟨[], by simp, List.drop_eq_nil_of_le (by omega)⟩, fun _ => rfl⟩

theorem isValidUtf8_iff (text : List U8) :
    isValidUtf8 text = true ↔ ∃ cps :
    List ℕ, (∀ cp ∈ cps, Scalar cp) ∧ text = cps.flatMap encode := by
  have h := validFrom_iff text text.length 0 (by omega)
  rwa [List.drop_zero] at h

end Sangtachi.Utf8
