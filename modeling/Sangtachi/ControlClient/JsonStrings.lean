import Sangtachi.ControlClient.Json

/-! # Strings of the JSON text

What the escapes of a string denote, what the string loop collects, and what the writer puts in its
place. -/
namespace Sangtachi.Json

open Sangtachi.BigEndian (U8)
open Sangtachi.Utf8

/-! ## Escapes -/

/-- Four hexadecimal digits and their value. -/
def HexWord (digits : Bytes) (v : ℕ) : Prop :=
  ∃ a b c d x y z w, digits = [a, b, c, d] ∧ hexValue a = some x ∧ hexValue b = some y ∧
    hexValue c = some z ∧ hexValue d = some w ∧ v = ((x * 16 + y) * 16 + z) * 16 + w

/-- The scalar value of an escape, the backslash left out: four digits that are no surrogate, or a
high surrogate and a low one. -/
inductive Denotes : Bytes → ℕ → Prop where
  | plain {digits : Bytes} {v : ℕ} : HexWord digits v → ¬ (0xD800 ≤ v ∧ v ≤ 0xDFFF) →
      Denotes (letterU :: digits) v
  | pair {digits digits' : Bytes} {high low : ℕ} : HexWord digits high → HexWord digits' low →
      0xD800 ≤ high → high ≤ 0xDBFF → 0xDC00 ≤ low → low ≤ 0xDFFF →
      Denotes (letterU :: digits ++ [backslash, letterU] ++ digits')
        (0x10000 + (high - 0xD800) * 0x400 + (low - 0xDC00))

theorem hexValue_lt (c : U8) (v : ℕ) (h : hexValue c = some v) : v < 16 := by
  have hall : ∀ c : U8, (hexValue c).all (· < 16) = true := by decide +kernel
  have hc := hall c
  rw [h] at hc
  simpa using hc

theorem HexWord.lt {digits : Bytes} {v : ℕ} (h : HexWord digits v) : v < 0x10000 := by
  obtain ⟨a, b, c, d, x, y, z, w, -, ha, hb, hc, hd, rfl⟩ := h
  have hx := hexValue_lt a x ha
  have hy := hexValue_lt b y hb
  have hz := hexValue_lt c z hc
  have hw := hexValue_lt d w hd
  omega

theorem HexWord.length {digits : Bytes} {v : ℕ} (h : HexWord digits v) : digits.length = 4 := by
  obtain ⟨a, b, c, d, x, y, z, w, rfl, -⟩ := h
  rfl

theorem shift_or {a b : ℕ} (h : b < 16) : a <<< 4 ||| b = a * 16 + b := by
  rw [← Nat.shiftLeft_add_eq_or_of_lt (i := 4) h, Nat.shiftLeft_eq]

theorem hex4_ok {rest rest' : Bytes} {v : ℕ} (h : hex4 rest = .ok (v, rest')) :
    ∃ digits, rest = digits ++ rest' ∧ HexWord digits v := by
  unfold hex4 at h
  split at h
  · rename_i a b c d tail
    split at h
    · rename_i x y z w ha hb hc hd
      simp only [Except.ok.injEq, Prod.mk.injEq] at h
      obtain ⟨rfl, rfl⟩ := h
      refine ⟨[a, b, c, d], rfl, a, b, c, d, x, y, z, w, rfl, ha, hb, hc, hd, ?_⟩
      rw [shift_or (hexValue_lt b y hb), shift_or (hexValue_lt c z hc),
        shift_or (hexValue_lt d w hd)]
    · cases h
  · cases h

theorem hex4_digits {digits : Bytes} {v : ℕ} (h : HexWord digits v) (rest : Bytes) :
    hex4 (digits ++ rest) = .ok (v, rest) := by
  obtain ⟨a, b, c, d, x, y, z, w, rfl, ha, hb, hc, hd, rfl⟩ := h
  simp only [List.cons_append, List.nil_append, hex4, ha, hb, hc, hd]
  rw [shift_or (hexValue_lt b y hb), shift_or (hexValue_lt c z hc), shift_or (hexValue_lt d w hd)]

theorem Denotes.scalar {escape : Bytes} {cp : ℕ} (h : Denotes escape cp) : Scalar cp := by
  cases h with
  | plain hword hplain =>
    have hlt := hword.lt
    exact ⟨by omega, hplain⟩
  | pair hhigh hlow => exact ⟨by omega, by omega⟩

theorem parseEscape_unicode {rest rest' out out' : Bytes}
    (h : parseEscape (letterU :: rest) out = .ok (out', rest')) :
    ∃ escape cp, letterU :: rest = escape ++ rest' ∧ Denotes escape cp ∧
      out' = appendUtf8 out cp := by
  unfold parseEscape at h
  dsimp only at h
  rw [if_neg (by decide), if_neg (by decide), if_neg (by decide), if_neg (by decide),
    if_neg (by decide), if_neg (by decide), if_neg (by decide), if_neg (by decide),
    if_neg (by decide)] at h
  cases hfirst : hex4 rest with
  | error e =>
    rw [hfirst] at h
    cases h
  | ok first =>
    obtain ⟨cp, more⟩ := first
    obtain ⟨digits, rfl, hword⟩ := hex4_ok hfirst
    rw [hfirst] at h
    dsimp only at h
    split_ifs at h with hlone hhigh hnext
    · -- a high surrogate: its other half follows
      cases hsecond : hex4 (more.drop 2) with
      | error e =>
        rw [hsecond] at h
        cases h
      | ok second =>
        obtain ⟨low, tail⟩ := second
        obtain ⟨digits', htail, hword'⟩ := hex4_ok hsecond
        rw [hsecond] at h
        dsimp only at h
        split_ifs at h with hlow
        simp only [Except.ok.injEq, Prod.mk.injEq] at h
        obtain ⟨rfl, rfl⟩ := h
        rw [not_not] at hnext
        have hmore : more = [backslash, letterU] ++ (digits' ++ tail) := by
          rw [← hnext, ← htail, List.take_append_drop]
        refine ⟨_, _, ?_, .pair hword hword' hhigh.1 hhigh.2 (by omega) (by omega), ?_⟩
        · rw [hmore]
          simp
        · rw [Nat.shiftLeft_eq]
    · simp only [Except.ok.injEq, Prod.mk.injEq] at h
      obtain ⟨rfl, rfl⟩ := h
      exact ⟨letterU :: digits, cp, rfl, .plain hword (by omega), rfl⟩

/-- Acceptance of UTF-8 is exact: the accepted texts are the sequences of encoded scalar values,
one sequence each; the table reads no byte behind the text; and an escape with digits appends the
encoding of the value it denotes. -/
theorem utf8_exact :
    (∀ text : Bytes, isValidUtf8 text = true ↔
      ∃ cps : List ℕ, (∀ cp ∈ cps, Scalar cp) ∧ text = cps.flatMap (appendUtf8 [])) ∧
    (∀ cps cps' : List ℕ, (∀ cp ∈ cps, Scalar cp) → (∀ cp ∈ cps', Scalar cp) →
      cps.flatMap (appendUtf8 []) = cps'.flatMap (appendUtf8 []) → cps = cps') ∧
    (∀ (text : Bytes) (pos : ℕ), pos ≤ text.length →
      ∃ n, utf8Length text pos = some n ∧ pos + n ≤ text.length) ∧
    ∀ rest rest' out out' : Bytes, parseEscape (letterU :: rest) out = .ok (out', rest') →
      ∃ escape cp, letterU :: rest = escape ++ rest' ∧ Denotes escape cp ∧ Scalar cp ∧
        out' = appendUtf8 out cp := by
  refine ⟨isValidUtf8_iff, fun cps cps' h h' => encode_prefixed.unique h h', ?_, ?_⟩
  · intro text pos hpos
    refine ⟨_, utf8Length_eq text pos, ?_⟩
    have hle := charLength_le (text.drop pos)
    rw [List.length_drop] at hle
    omega
  · intro rest rest' out out' h
    obtain ⟨escape, cp, hsplit, hdenotes, hout⟩ := parseEscape_unicode h
    exact ⟨escape, cp, hsplit, hdenotes, hdenotes.scalar, hout⟩

/-! ## What the writer puts in place of a character -/

def spelled (cp : ℕ) : Bytes := (encode cp).flatMap writeByte

theorem encode_ascii {cp : ℕ} (h : cp < 0x80) : encode cp = [byte cp] := if_pos h

theorem writeByte_high {b : U8} (h : 0x80 ≤ b.toNat) : writeByte b = [b] := by
  revert h
  revert b
  decide +kernel

theorem encode_high {cp : ℕ} (h : Scalar cp) (hcp : 0x80 ≤ cp) :
    ∀ b ∈ encode cp, 0x80 ≤ b.toNat := by
  obtain ⟨hmax, -⟩ := h
  rcases Nat.lt_or_ge cp 0x800 with htwo | htwo
  · rw [encode_two hcp htwo]
    simp only [List.forall_mem_cons, List.not_mem_nil, false_imp_iff, implies_true, and_true]
    refine ⟨?_, ?_⟩ <;> rw [toNat_byte (by omega)] <;> omega
  rcases Nat.lt_or_ge cp 0x10000 with hthree | hthree
  · rw [encode_three htwo hthree]
    simp only [List.forall_mem_cons, List.not_mem_nil, false_imp_iff, implies_true, and_true]
    refine ⟨?_, ?_, ?_⟩ <;> rw [toNat_byte (by omega)] <;> omega
  · rw [encode_four hthree hmax]
    simp only [List.forall_mem_cons, List.not_mem_nil, false_imp_iff, implies_true, and_true]
    refine ⟨?_, ?_, ?_, ?_⟩ <;> rw [toNat_byte (by omega)] <;> omega

theorem spelled_high {cp : ℕ} (h : Scalar cp) (hcp : 0x80 ≤ cp) : spelled cp = encode cp := by
  have hall := encode_high h hcp
  unfold spelled
  generalize encode cp = bytes at hall
  induction bytes with
  | nil => rfl
  | cons b bytes ih =>
    rw [List.flatMap_cons, writeByte_high (hall b List.mem_cons_self),
      ih fun c hc => hall c (List.mem_cons_of_mem _ hc)]
    rfl

theorem encode_length_le (cp : ℕ) : 1 ≤ (encode cp).length ∧ (encode cp).length ≤ 4 := by
  unfold encode
  split_ifs <;> simp

theorem writeByte_length (b : U8) : 1 ≤ (writeByte b).length ∧ (writeByte b).length ≤ 6 := by
  unfold writeByte
  split_ifs <;> simp

theorem spelled_length {cp : ℕ} (h : Scalar cp) :
    1 ≤ (spelled cp).length ∧ (spelled cp).length ≤ 6 := by
  rcases Nat.lt_or_ge cp 0x80 with hlow | hhigh
  · unfold spelled
    rw [encode_ascii hlow, List.flatMap_singleton]
    exact writeByte_length _
  · rw [spelled_high h hhigh]
    have hlength := encode_length_le cp
    omega

/-! ## The string loop -/

theorem stringFrom_escape {rest rest' out out' : Bytes}
    (h : parseEscape rest out = .ok (out', rest')) (rounds : ℕ) :
    stringFrom (rounds + 1) (backslash :: rest) out = stringFrom rounds rest' out' := by
  rw [stringFrom, if_neg (by decide), if_pos rfl, h]

theorem stringFrom_raw {b : U8} {cp : ℕ} {tail : Bytes} (hcp : Scalar cp)
    (hb : encode cp = b :: tail) (hquote : b ≠ quote) (hback : b ≠ backslash)
    (hcontrol : ¬ b < 0x20) (rounds : ℕ)
    (rest out : Bytes) :
    stringFrom (rounds + 1)
    (encode cp ++ rest) out = stringFrom rounds rest (out ++ encode cp) := by
  have hlength := charLength_encode hcp rest
  rw [hb, List.cons_append] at hlength ⊢
  rw [stringFrom, if_neg hquote, if_neg hback, if_neg hcontrol, hlength, List.length_cons]
  dsimp only
  rw [List.drop_left, ← List.cons_append, show tail.length + 1 = (b :: tail).length from rfl,
    List.take_left]

/-- The writer's six-byte escapes are read as the control character they stand for. -/
theorem control_spelled (b : U8) (h : b < 0x20) : ∃ digits, HexWord digits b.toNat ∧
    [backslash, letterU, zero, zero, hexDigit (b.toNat >>> 4), hexDigit (b.toNat &&& 0x0F)] =
      backslash :: letterU :: digits := by
  have hall : ∀ b : U8, b < 0x20 → hexValue zero = some 0 ∧
      hexValue (hexDigit (b.toNat >>> 4)) = some (b.toNat / 16) ∧
      hexValue (hexDigit (b.toNat &&& 0x0F)) = some (b.toNat % 16) := by
    decide +kernel
  obtain ⟨hzero, hhigh, hlow⟩ := hall b h
  refine ⟨_,
    ⟨_, _, _, _, 0, 0, b.toNat / 16, b.toNat % 16, rfl, hzero, hzero, hhigh, hlow, by omega⟩, rfl⟩

theorem stringFrom_spelled {cp : ℕ} (h : Scalar cp) (rounds : ℕ) (rest out : Bytes) :
    stringFrom (rounds + 1)
    (spelled cp ++ rest) out = stringFrom rounds rest (out ++ encode cp) := by
  rcases Nat.lt_or_ge cp 0x80 with hlow | hhigh
  · have hn : (byte cp).toNat = cp := toNat_byte (by omega)
    unfold spelled
    rw [encode_ascii hlow, List.flatMap_singleton]
    generalize hb : byte cp = b at hn
    unfold writeByte
    split_ifs with hquote hback hbs hff hlf hcr htab hcontrol
    · subst hquote
      exact stringFrom_escape rfl rounds
    · subst hback
      exact stringFrom_escape rfl rounds
    · subst hbs
      exact stringFrom_escape rfl rounds
    · subst hff
      exact stringFrom_escape rfl rounds
    · subst hlf
      exact stringFrom_escape rfl rounds
    · subst hcr
      exact stringFrom_escape rfl rounds
    · subst htab
      exact stringFrom_escape rfl rounds
    · obtain ⟨digits, hword, hsame⟩ := control_spelled b hcontrol
      have hlt : b.toNat < 0x20 := by
        rw [BitVec.lt_def] at hcontrol
        exact hcontrol
      have hescape : parseEscape (letterU :: (digits ++ rest)) out = .ok (out ++ [b], rest) := by
        unfold parseEscape
        dsimp only
        rw [if_neg (by decide), if_neg (by decide), if_neg (by decide), if_neg (by decide),
          if_neg (by decide), if_neg (by decide), if_neg (by decide), if_neg (by decide),
          if_neg (by decide), hex4_digits hword]
        dsimp only
        rw [if_neg (by omega), if_neg (by omega), appendUtf8, hn, encode_ascii hlow, hb]
      rw [hsame]
      exact stringFrom_escape hescape rounds
    · have hraw := stringFrom_raw h (show encode cp = b :: [] by rw [encode_ascii hlow, hb]) hquote
        hback hcontrol rounds rest out
      rwa [encode_ascii hlow, hb] at hraw
  · rw [spelled_high h hhigh]
    have hall := encode_high h hhigh
    cases hbytes : encode cp with
    | nil => exact absurd hbytes (encode_ne_nil cp)
    | cons b tail =>
      have hb : 0x80 ≤ b.toNat := hall b (by rw [hbytes]; exact List.mem_cons_self)
      rw [← hbytes]
      apply stringFrom_raw h hbytes
      · rintro rfl
        exact absurd hb (by decide)
      · rintro rfl
        exact absurd hb (by decide)
      · rw [BitVec.lt_def]
        exact not_lt.mpr ((by decide : (0x20#8).toNat ≤ 0x80).trans hb)

theorem stringFrom_written {cps : List ℕ} (h : ∀ cp ∈ cps, Scalar cp) {rounds : ℕ}
    (hrounds : cps.length < rounds) (rest out : Bytes) :
    stringFrom rounds (cps.flatMap spelled ++ quote :: rest) out =
      .ok (out ++ cps.flatMap encode, rest) := by
  induction cps generalizing rounds out with
  | nil =>
    obtain ⟨rounds, rfl⟩ : ∃ r, rounds = r + 1 :=
      ⟨rounds - 1, by rw [List.length_nil] at hrounds; omega⟩
    rw [List.flatMap_nil, List.flatMap_nil, List.nil_append, List.append_nil,
      stringFrom, if_pos rfl]
  | cons cp cps ih =>
    rw [List.length_cons] at hrounds
    obtain ⟨rounds, rfl⟩ : ∃ r, rounds = r + 1 := ⟨rounds - 1, by omega⟩
    rw [List.flatMap_cons, List.append_assoc, stringFrom_spelled (h cp List.mem_cons_self),
      ih (fun c hc => h c (List.mem_cons_of_mem _ hc)) (by omega), List.flatMap_cons,
      List.append_assoc]

theorem flatMap_spelled (cps : List ℕ) :
    cps.flatMap spelled = (cps.flatMap encode).flatMap writeByte := by
  rw [List.flatMap_assoc]
  rfl

theorem length_flatMap_spelled {cps : List ℕ} (h : ∀ cp ∈ cps, Scalar cp) :
    cps.length ≤ (cps.flatMap spelled).length := by
  induction cps with
  | nil => simp
  | cons cp cps ih =>
    have hfirst := (spelled_length (h cp List.mem_cons_self)).1
    have hrest := ih fun c hc => h c (List.mem_cons_of_mem _ hc)
    rw [List.flatMap_cons, List.length_append, List.length_cons]
    omega

theorem parseString_writeString {s text : Bytes} (h : writeString s = some text) (rest : Bytes) :
    parseString (text ++ rest) = .ok (s, rest) := by
  unfold writeString at h
  split_ifs at h with hvalid
  obtain ⟨cps, hscalar, rfl⟩ := (isValidUtf8_iff s).mp hvalid
  rw [← flatMap_spelled] at h
  cases h
  have hlength := length_flatMap_spelled hscalar
  have hdrop : (([quote] ++ cps.flatMap spelled ++ [quote]) ++ rest).drop 1 =
      cps.flatMap spelled ++ quote :: rest := by simp
  unfold parseString
  rw [hdrop, stringFrom_written hscalar]
  · rfl
  · simp only [List.length_append, List.length_singleton]
    omega

theorem parseEscape_sound {rest rest' out out' : Bytes}
    (h : parseEscape rest out = .ok (out', rest')) :
    ∃ cp, Scalar cp ∧ out' = out ++ encode cp ∧
      (spelled cp).length + rest'.length ≤ rest.length + 1 := by
  cases rest with
  | nil => simp [parseEscape] at h
  | cons c rest =>
    by_cases hu : c = letterU
    · subst hu
      obtain ⟨escape, cp, hsplit, hdenotes, rfl⟩ := parseEscape_unicode h
      have hscalar := hdenotes.scalar
      have hspelled := (spelled_length hscalar).2
      refine ⟨cp, hscalar, rfl, ?_⟩
      have hlength := congrArg List.length hsplit
      rw [List.length_append] at hlength
      have hescape : 5 ≤ escape.length := by
        cases hdenotes with
        | plain hword _ =>
          rw [List.length_cons, hword.length]
        | pair hword hword' =>
          simp only [List.length_append, List.length_cons, hword.length, hword'.length,
            List.length_nil]
          omega
      omega
    · have hshort : ∀ b : U8, b.toNat < 0x80 → (writeByte b).length ≤ 2 → out' = out ++ [b] →
        rest' = rest →
          ∃ cp, Scalar cp ∧ out' = out ++ encode cp ∧
            (spelled cp).length + rest'.length ≤ (c :: rest).length + 1 := by
        rintro b hb hwrite rfl rfl
        have hencode : encode b.toNat = [b] := by
          rw [encode_ascii hb, byte_toNat]
        refine ⟨b.toNat, ⟨by omega, by omega⟩, by rw [hencode], ?_⟩
        rw [spelled, hencode, List.flatMap_singleton, List.length_cons]
        omega
      unfold parseEscape at h
      dsimp only at h
      split_ifs at h with h1 h2 h3 h4 h5 h6 h7 h8
      all_goals
        simp only [Except.ok.injEq, Prod.mk.injEq] at h
        obtain ⟨rfl, rfl⟩ := h
        refine hshort _ ?_ ?_ rfl rfl <;> decide

/-- What the string loop collects is valid, and the writer spells it no longer than it stood there.
-/
theorem stringFrom_sound {rounds : ℕ} {rest rest' out out' : Bytes}
    (h : stringFrom rounds rest out = .ok (out', rest')) :
    ∃ cps : List ℕ, (∀ cp ∈ cps, Scalar cp) ∧ out' = out ++ cps.flatMap encode ∧
      (cps.flatMap spelled).length + rest'.length + 1 ≤ rest.length := by
  induction rounds generalizing rest out with
  | zero => cases h
  | succ rounds ih =>
    cases rest with
    | nil => cases h
    | cons b rest =>
      -- a round that appends `cp` and goes on
      have hround : ∀ cp rest₁, Scalar cp →
        stringFrom rounds rest₁ (out ++ encode cp) = .ok (out', rest') →
          (spelled cp).length + rest₁.length ≤ (b :: rest).length →
          ∃ cps : List ℕ, (∀ cp ∈ cps, Scalar cp) ∧ out' = out ++ cps.flatMap encode ∧
            (cps.flatMap spelled).length + rest'.length + 1 ≤ (b :: rest).length := by
        intro cp rest₁ hcp hnext hle
        obtain ⟨cps, hscalar, rfl, hlength⟩ := ih hnext
        refine ⟨cp :: cps, fun c hc => ?_, ?_, ?_⟩
        · rcases List.mem_cons.mp hc with rfl | hc
          · exact hcp
          · exact hscalar c hc
        · rw [List.flatMap_cons, List.append_assoc]
        · rw [List.flatMap_cons, List.length_append]
          omega
      rw [stringFrom] at h
      split_ifs at h with hquote hback hcontrol
      · simp only [Except.ok.injEq, Prod.mk.injEq] at h
        obtain ⟨rfl, rfl⟩ := h
        exact ⟨[], by simp, by simp, by simp⟩
      · cases hescape : parseEscape rest out with
        | error e =>
          rw [hescape] at h
          cases h
        | ok found =>
          obtain ⟨out₁, rest₁⟩ := found
          obtain ⟨cp, hcp, rfl, hle⟩ := parseEscape_sound hescape
          rw [hescape] at h
          exact hround cp rest₁ hcp h (by rwa [List.length_cons])
      · cases hn : charLength (b :: rest) with
        | zero =>
          rw [hn] at h
          cases h
        | succ n =>
          rw [hn] at h
          dsimp only at h
          obtain ⟨cp, tail, hcp, hsplit⟩ :=
            charLength_front (show 0 < charLength (b :: rest) by omega)
          have hlength : (encode cp).length = n + 1 := by
            rw [← hn, hsplit, charLength_encode hcp]
          have htake : (b :: rest).take (n + 1) = encode cp := by
            rw [hsplit, ← hlength, List.take_left]
          have hdrop : rest.drop n = tail := by
            have hsame : (b :: rest).drop (n + 1) = tail := by
              rw [hsplit, ← hlength, List.drop_left]
            exact hsame
          rw [htake, hdrop] at h
          apply hround cp tail hcp h
          have hall := congrArg List.length hsplit
          rw [List.length_append] at hall
          rcases Nat.lt_or_ge cp 0x80 with hlow | hhigh
          · -- an ASCII character that is no quote, backslash or control stands for itself
            rw [encode_ascii hlow] at hsplit
            have hb : b = byte cp := (List.cons.inj hsplit).1
            have hplain : writeByte b = [b] := by
              unfold writeByte
              rw [if_neg hquote, if_neg hback, if_neg, if_neg, if_neg, if_neg, if_neg,
                if_neg hcontrol] <;>
                rintro rfl <;> exact hcontrol (by decide)
            rw [spelled, encode_ascii hlow, List.flatMap_singleton, ← hb, hplain]
            rw [encode_ascii hlow] at hall
            exact hall.ge
          · rw [spelled_high hcp hhigh]
            exact hall.ge

theorem parseString_sound {rest rest' s : Bytes} (h : parseString rest = .ok (s, rest')) :
    ∃ text, writeString s = some text ∧ text.length + rest'.length ≤ rest.length := by
  obtain ⟨cps, hscalar, rfl, hlength⟩ := stringFrom_sound h
  have hvalid : isValidUtf8 ([] ++ cps.flatMap encode) = true :=
    (isValidUtf8_iff _).mpr ⟨cps, hscalar, rfl⟩
  refine ⟨_, if_pos hvalid, ?_⟩
  rw [List.length_drop] at hlength
  simp only [List.nil_append, ← flatMap_spelled, List.length_append, List.length_singleton]
  omega

end Sangtachi.Json
