import Sangtachi.Tunnel.InnerIpv4

/-! # Synthetic inner packets

The packets the console's `send` puts into the tunnel, and the header checksum they carry. The sum
is taken in 32-bit words as the code takes it; the checks of `check_inner_ipv4` then read the
same sum without a bound. -/
namespace Sangtachi.DataSender

open Sangtachi.BigEndian Sangtachi.InnerIpv4

def kSyntheticPort : U64 := 25565
def kMarkerRequest : U8 := 0xA5
def kSyntheticMinSize : ℕ := 20
def kMaxInner : ℕ := 1452

/-- Cells past the end of `p` are not written. -/
def putByte (p : List U8) (pos : ℕ) (byte : U8) : List U8 :=
  if pos < p.length then p.set pos byte else p

def put (p : List U8) (pos : ℕ) (value : U64) (width : ℕ) : List U8 :=
  (List.range width).foldl
    (fun p i => putByte p (pos + i) ((value >>> (8 * (width - 1 - i))).setWidth 8)) p

/-- The 32-bit sum of the first `words` words. -/
def wordSum32 (packet : List U8) : ℕ → U32
  | 0 => 0
  | words + 1 =>
    wordSum32 packet words +
      (((read8 packet (2 * words)).setWidth 32 <<< 8) |||
        (read8 packet (2 * words + 1)).setWidth 32)

def foldOnce32 (sum : U32) : U32 := (sum &&& 0xFFFF#32) + (sum >>> 16)

theorem high16 (sum : U32) : sum >>> 16 ≠ 0 ↔ sum.toNat / 65536 ≠ 0 := by
  have hhigh : (sum >>> 16).toNat = sum.toNat / 65536 := by
    rw [BitVec.toNat_ushiftRight, Nat.shiftRight_eq_div_pow]
  rw [← hhigh, not_iff_not]
  constructor
  · intro h
    rw [h]
    rfl
  · intro h
    exact BitVec.eq_of_toNat_eq h

theorem foldOnce32_toNat (sum : U32) : (foldOnce32 sum).toNat = foldOnce sum.toNat := by
  have hsum := sum.isLt
  have hlow : (sum &&& 0xFFFF#32).toNat = sum.toNat % 65536 := by
    rw [BitVec.toNat_and]
    exact Nat.and_two_pow_sub_one_eq_mod sum.toNat 16
  have hhigh : (sum >>> 16).toNat = sum.toNat / 65536 := by
    rw [BitVec.toNat_ushiftRight, Nat.shiftRight_eq_div_pow]
  rw [foldOnce32, BitVec.toNat_add, hlow, hhigh, foldOnce]
  apply Nat.mod_eq_of_lt
  omega

theorem foldOnce32_lt {sum : U32} (h : sum >>> 16 ≠ 0) : (foldOnce32 sum).toNat < sum.toNat := by
  rw [foldOnce32_toNat]
  exact foldOnce_lt ((high16 sum).mp h)

def fold32 (sum : U32) : U32 :=
  if _h : sum >>> 16 ≠ 0 then fold32 (foldOnce32 sum) else sum
termination_by sum.toNat
decreasing_by exact foldOnce32_lt _h

def fillIpv4Checksum (packet : List U8) : List U8 :=
  if packet.length < 20 then packet
  else
    let cleared := (packet.set 10 0).set 11 0
    let checksum : U16 := (~~~(fold32 (wordSum32 cleared 10)) &&& 0xFFFF#32).setWidth 16
    (cleared.set 10 ((checksum >>> 8).setWidth 8)).set 11 ((checksum &&& 0xFF#16).setWidth 8)

def syntheticCells (size : U64) (src dst number : U32) (sentMs : U64) : List U8 :=
  let p := List.replicate size.toNat kMarkerRequest
  let p := put p 0 0x45 1
  let p := put p 1 0x00 1
  let p := put p 2 size 2
  let p := put p 4 0 2
  let p := put p 6 0 2
  let p := put p 8 64 1
  let p := put p 9 17 1
  let p := put p 10 0 2
  let p := put p 12 (src.setWidth 64) 4
  let p := put p 16 (dst.setWidth 64) 4
  let p := put p 20 kSyntheticPort 2
  let p := put p 22 kSyntheticPort 2
  let p := put p 24 (size - 20) 2
  let p := put p 26 0 2
  let p := put p 28 (number.setWidth 64) 4
  put p 32 sentMs 8

def makeSynthetic (size : U64) (src dst number : U32) (sentMs : U64) : List U8 :=
  fillIpv4Checksum (syntheticCells size src dst number sentMs)

/-! ## The sum in 32 bits -/

def headerWords (packet : List U8) (words : ℕ) : List ℕ :=
  (List.range words).map fun i => (read16 packet (2 * i)).toNat

theorem join_toNat {w : ℕ} (hw : 16 ≤ w) (a b : U8) :
    ((a.setWidth w <<< 8) ||| b.setWidth w).toNat = a.toNat * 256 + b.toNat := by
  have ha := a.isLt
  have hb := b.isLt
  have hpow : 2 ^ 16 ≤ 2 ^ w := Nat.pow_le_pow_right (by omega) hw
  have hor : a.toNat * 2 ^ 8 ||| b.toNat = a.toNat * 256 + b.toNat := by
    rw [← Nat.shiftLeft_eq, ← Nat.shiftLeft_add_eq_or_of_lt hb, Nat.shiftLeft_eq]
  rw [BitVec.toNat_or, BitVec.toNat_shiftLeft, BitVec.toNat_setWidth, BitVec.toNat_setWidth,
    Nat.mod_eq_of_lt (show a.toNat < 2 ^ w by omega),
    Nat.mod_eq_of_lt (show b.toNat < 2 ^ w by omega),
    Nat.shiftLeft_eq, Nat.mod_eq_of_lt (show a.toNat * 2 ^ 8 < 2 ^ w by omega), hor]

theorem wordSum_eq (packet : List U8) (words : ℕ) :
    wordSum packet words = (headerWords packet words).sum := by
  induction words with
  | zero => rfl
  | succ words ih =>
    have hword : (read16 packet (2 * words)).toNat =
        (read8 packet (2 * words)).toNat * 256 + (read8 packet (2 * words + 1)).toNat :=
      join_toNat (by omega) _ _
    rw [wordSum, ih, ← hword]
    simp [headerWords, List.range_succ]

theorem wordSum_le (packet : List U8) (words : ℕ) : wordSum packet words ≤ words * 65535 := by
  induction words with
  | zero => exact le_refl 0
  | succ words ih =>
    have hhigh := (read8 packet (2 * words)).isLt
    have hlow := (read8 packet (2 * words + 1)).isLt
    rw [wordSum]
    omega

theorem wordSum32_toNat (packet : List U8) {words : ℕ} (h : words ≤ 65537) :
    (wordSum32 packet words).toNat = wordSum packet words := by
  induction words with
  | zero => rfl
  | succ words ih =>
    have hle := wordSum_le packet (words + 1)
    rw [wordSum] at hle
    rw [wordSum32, wordSum, BitVec.toNat_add, ih (by omega), join_toNat (by omega)]
    apply Nat.mod_eq_of_lt
    omega

theorem fold32_toNat (sum : U32) : (fold32 sum).toNat = foldCarry sum.toNat := by
  fun_induction fold32 sum with
  | case1 sum h ih =>
    rw [ih, foldOnce32_toNat, foldCarry.eq_def sum.toNat, dif_pos ((high16 sum).mp h)]
  | case2 sum h =>
    rw [foldCarry, dif_neg fun hhigh => h ((high16 sum).mpr hhigh)]

/-- The fold-and-compare test, for headers short enough that the sum stays in 32 bits. -/
theorem fold32_ones (packet : List U8) {words : ℕ} (h : words ≤ 65537) :
    fold32 (wordSum32 packet words) = 0xFFFF ↔ foldCarry (wordSum packet words) = 0xFFFF := by
  rw [← wordSum32_toNat packet h, ← fold32_toNat]
  constructor
  · intro heq
    rw [heq]
    rfl
  · intro heq
    exact BitVec.eq_of_toNat_eq heq

/-! ## Filling the checksum -/

@[simp] theorem length_fillIpv4Checksum (packet : List U8) :
    (fillIpv4Checksum packet).length = packet.length := by
  unfold fillIpv4Checksum
  split <;> simp

theorem read8_set_self {packet : List U8} {pos : ℕ} (byte : U8) (h : pos < packet.length) :
    read8 (packet.set pos byte) pos = byte := by
  simp [read8, List.getD_eq_getElem?_getD, h]

theorem read8_set_ne (packet : List U8) {pos i : ℕ} (byte : U8) (h : i ≠ pos) :
    read8 (packet.set pos byte) i = read8 packet i := by
  simp [read8, List.getD_eq_getElem?_getD, List.getElem?_set_ne (Ne.symm h)]

theorem fillIpv4Checksum_frame (packet : List U8) {i : ℕ} (h10 : i ≠ 10) (h11 : i ≠ 11) :
    read8 (fillIpv4Checksum packet) i = read8 packet i := by
  unfold fillIpv4Checksum
  by_cases hlen : packet.length < 20
  · rw [if_pos hlen]
  · rw [if_neg hlen]
    dsimp only
    rw [read8_set_ne _ _ h11, read8_set_ne _ _ h10, read8_set_ne _ _ h11, read8_set_ne _ _ h10]

theorem wordSum_congr {p q : List U8} {words : ℕ}
    (h : ∀ i < 2 * words, read8 p i = read8 q i) : wordSum p words = wordSum q words := by
  induction words with
  | zero => rfl
  | succ words ih =>
    rw [wordSum, wordSum, ih fun i hi => h i (by omega), h (2 * words) (by omega),
      h (2 * words + 1) (by omega)]

theorem wordSum_ten (p : List U8) :
    wordSum p 10 = wordSum p 5 + ((read8 p 10).toNat * 256 + (read8 p 11).toNat) +
      (((read8 p 12).toNat * 256 + (read8 p 13).toNat) +
        ((read8 p 14).toNat * 256 + (read8 p 15).toNat) +
        ((read8 p 16).toNat * 256 + (read8 p 17).toNat) +
        ((read8 p 18).toNat * 256 + (read8 p 19).toNat)) := by
  simp only [wordSum, Nat.reduceMul, Nat.reduceAdd]
  omega

theorem fillIpv4Checksum_field {packet : List U8} (h : 20 ≤ packet.length) :
    (read8 (fillIpv4Checksum packet) 10).toNat * 256 + (read8 (fillIpv4Checksum packet) 11).toNat =
      65535 - foldCarry (wordSum ((packet.set 10 0).set 11 0) 10) := by
  have hcleared := wordSum32_toNat ((packet.set 10 0).set 11 0) (show 10 ≤ 65537 by omega)
  have hlt := foldCarry_lt (wordSum ((packet.set 10 0).set 11 0) 10)
  have hfold : (fold32 (wordSum32 ((packet.set 10 0).set 11 0) 10)).toNat =
      foldCarry (wordSum ((packet.set 10 0).set 11 0) 10) := by
    rw [fold32_toNat, hcleared]
  have hand : ∀ v : U32, (v &&& 0xFFFF#32).toNat = v.toNat % 65536 := by
    intro v
    rw [BitVec.toNat_and]
    exact Nat.and_two_pow_sub_one_eq_mod v.toNat 16
  have hlow : ∀ v : U16, ((v &&& 0xFF#16).setWidth 8).toNat = v.toNat % 256 := by
    intro v
    rw [BitVec.toNat_setWidth, BitVec.toNat_and]
    have := Nat.and_two_pow_sub_one_eq_mod v.toNat 8
    change v.toNat &&& 255 = v.toNat % 256 at this
    change (v.toNat &&& 255) % 2 ^ 8 = v.toNat % 256
    rw [this]
    omega
  have hhigh : ∀ v : U16, ((v >>> 8).setWidth 8).toNat = v.toNat / 256 := by
    intro v
    have := v.isLt
    rw [BitVec.toNat_setWidth, BitVec.toNat_ushiftRight, Nat.shiftRight_eq_div_pow]
    omega
  unfold fillIpv4Checksum
  rw [if_neg (by omega)]
  dsimp only
  rw [read8_set_ne _ _ (by omega), read8_set_self _ (by simp; omega),
    read8_set_self _ (by simp; omega),
    hlow, hhigh, BitVec.toNat_setWidth, hand, BitVec.toNat_not, hfold]
  omega

/-- Filling makes the sum of the header a positive multiple of `0xFFFF`. -/
theorem fillIpv4Checksum_sum {packet : List U8} (h : 20 ≤ packet.length)
    (hihl : (read8 packet 0).toNat % 16 = 5) :
    foldCarry (wordSum (fillIpv4Checksum packet) 10) = 0xFFFF := by
  have hfield := fillIpv4Checksum_field h
  have hframe : ∀ i, i ≠ 10 → i ≠ 11 →
      read8 (fillIpv4Checksum packet) i = read8 ((packet.set 10 0).set 11 0) i := by
    intro i h10 h11
    rw [fillIpv4Checksum_frame _ h10 h11, read8_set_ne _ _ h11, read8_set_ne _ _ h10]
  have hzero10 : (read8 ((packet.set 10 0).set 11 0) 10).toNat = 0 := by
    rw [read8_set_ne _ _ (by omega), read8_set_self _ (by omega)]
    rfl
  have hzero11 : (read8 ((packet.set 10 0).set 11 0) 11).toNat = 0 := by
    rw [read8_set_self _ (by simp; omega)]
    rfl
  have hfirst : wordSum (fillIpv4Checksum packet) 5 = wordSum ((packet.set 10 0).set 11 0) 5 :=
    wordSum_congr fun i hi => hframe i (by omega) (by omega)
  have hbyte : read8 ((packet.set 10 0).set 11 0) 0 = read8 packet 0 := by
    rw [read8_set_ne _ _ (by omega), read8_set_ne _ _ (by omega)]
  have hpos : 0 < wordSum ((packet.set 10 0).set 11 0) 5 := by
    simp only [wordSum, Nat.mul_zero, hbyte]
    omega
  have hsum := wordSum_ten (fillIpv4Checksum packet)
  have hclear := wordSum_ten ((packet.set 10 0).set 11 0)
  rw [hfirst, hfield, hframe 12 (by omega) (by omega), hframe 13 (by omega) (by omega),
    hframe 14 (by omega) (by omega), hframe 15 (by omega) (by omega),
    hframe 16 (by omega) (by omega),
    hframe 17 (by omega) (by omega), hframe 18 (by omega) (by omega),
    hframe 19 (by omega) (by omega)] at hsum
  rw [hzero10, hzero11] at hclear
  have hmod := foldCarry_mod (wordSum ((packet.set 10 0).set 11 0) 10)
  have hlt := foldCarry_lt (wordSum ((packet.set 10 0).set 11 0) 10)
  rw [foldCarry_ones]
  constructor <;> omega

/-! ## The cells of a synthetic packet -/

@[simp] theorem length_putByte (p : List U8) (pos : ℕ) (byte : U8) :
    (putByte p pos byte).length = p.length := by
  unfold putByte
  split <;> simp

@[simp] theorem length_put (p : List U8) (pos : ℕ) (value : U64) (width : ℕ) :
    (put p pos value width).length = p.length := by
  unfold put
  generalize List.range width = cells
  induction cells generalizing p with
  | nil => rfl
  | cons i cells ih => rw [List.foldl_cons, ih, length_putByte]

theorem read8_put_outside (p : List U8) (value : U64) {pos width i : ℕ}
    (h : i < pos ∨ pos + width ≤ i) : read8 (put p pos value width) i = read8 p i := by
  have hstep : ∀ (cells : List ℕ) (q : List U8), (∀ k ∈ cells, k < width) →
      read8 (cells.foldl
        (fun p i => putByte p (pos + i) ((value >>> (8 * (width - 1 - i))).setWidth 8)) q) i =
        read8 q i := by
    intro cells
    induction cells with
    | nil =>
      intro q _
      rfl
    | cons k cells ih =>
      intro q hcells
      have hk := hcells k List.mem_cons_self
      rw [List.foldl_cons, ih _ fun j hj => hcells j (List.mem_cons_of_mem k hj)]
      unfold putByte
      split
      · exact read8_set_ne _ _ (by omega)
      · rfl
  exact hstep _ p fun k hk => List.mem_range.mp hk

theorem read8_put_one (p : List U8) (value : U64) {pos : ℕ} (h : pos < p.length) :
    read8 (put p pos value 1) pos = value.setWidth 8 := by
  have hput : put p pos value 1 = p.set pos (value.setWidth 8) := by
    simp [put, putByte, List.range_succ, h]
  rw [hput, read8_set_self _ h]

theorem read16_put (p : List U8) (value : U64) {pos : ℕ} (h : pos + 2 ≤ p.length) :
    read16 (put p pos value 2) pos = value.setWidth 16 := by
  have h0 : pos < p.length := by omega
  have h1 : pos + 1 < p.length := by omega
  have hput : put p pos value 2 =
      (p.set pos ((value >>> 8).setWidth 8)).set (pos + 1) (value.setWidth 8) := by
    simp [put, putByte, List.range_succ, h0, h1]
  rw [read16, hput, read8_set_ne _ _ (by omega), read8_set_self _ h0,
    read8_set_self _ (by simpa using h1)]
  apply BitVec.eq_of_getLsbD_eq
  intro i hi
  interval_cases i <;> simp

theorem read32_put (p : List U8) (value : U64) {pos : ℕ} (h : pos + 4 ≤ p.length) :
    read32 (put p pos value 4) pos = value.setWidth 32 := by
  have h0 : pos < p.length := by omega
  have h1 : pos + 1 < p.length := by omega
  have h2 : pos + 2 < p.length := by omega
  have h3 : pos + 3 < p.length := by omega
  have hput : put p pos value 4 =
      (((p.set pos ((value >>> 24).setWidth 8)).set (pos + 1) ((value >>> 16).setWidth 8)).set
        (pos + 2) ((value >>> 8).setWidth 8)).set (pos + 3) (value.setWidth 8) := by
    simp [put, putByte, List.range_succ, h0, h1, h2, h3]
  have hbytes : read8 (put p pos value 4) pos = (value >>> 24).setWidth 8 ∧
      read8 (put p pos value 4) (pos + 1) = (value >>> 16).setWidth 8 ∧
      read8 (put p pos value 4) (pos + 2) = (value >>> 8).setWidth 8 ∧
      read8 (put p pos value 4) (pos + 3) = value.setWidth 8 := by
    rw [hput]
    refine ⟨?_, ?_, ?_, read8_set_self _ (by simpa using h3)⟩
    · rw [read8_set_ne _ _ (by omega), read8_set_ne _ _ (by omega), read8_set_ne _ _ (by omega),
        read8_set_self _ h0]
    · rw [read8_set_ne _ _ (by omega), read8_set_ne _ _ (by omega),
        read8_set_self _ (by simpa using h1)]
    · rw [read8_set_ne _ _ (by omega), read8_set_self _ (by simpa using h2)]
  obtain ⟨hb0, hb1, hb2, hb3⟩ := hbytes
  rw [read32, hb0, hb1, hb2, hb3]
  apply BitVec.eq_of_getLsbD_eq
  intro i hi
  simp only [BitVec.getLsbD_or, BitVec.getLsbD_shiftLeft, BitVec.getLsbD_setWidth,
    BitVec.getLsbD_ushiftRight]
  interval_cases i <;> simp

theorem read16_put_outside (p : List U8) (value : U64) {pos width i : ℕ}
    (h : i + 2 ≤ pos ∨ pos + width ≤ i) : read16 (put p pos value width) i = read16 p i := by
  rw [read16, read16, read8_put_outside p value (by omega), read8_put_outside p value (by omega)]

theorem read32_put_outside (p : List U8) (value : U64) {pos width i : ℕ}
    (h : i + 4 ≤ pos ∨ pos + width ≤ i) : read32 (put p pos value width) i = read32 p i := by
  rw [read32, read32, read8_put_outside p value (by omega), read8_put_outside p value (by omega),
    read8_put_outside p value (by omega), read8_put_outside p value (by omega)]

theorem read16_fillIpv4Checksum (packet : List U8) {i : ℕ} (h : i + 2 ≤ 10 ∨ 12 ≤ i) :
    read16 (fillIpv4Checksum packet) i = read16 packet i := by
  rw [read16, read16, fillIpv4Checksum_frame packet (by omega) (by omega),
    fillIpv4Checksum_frame packet (by omega) (by omega)]

theorem read32_fillIpv4Checksum (packet : List U8) {i : ℕ} (h : i + 4 ≤ 10 ∨ 12 ≤ i) :
    read32 (fillIpv4Checksum packet) i = read32 packet i := by
  rw [read32, read32, fillIpv4Checksum_frame packet (by omega) (by omega),
    fillIpv4Checksum_frame packet (by omega) (by omega),
    fillIpv4Checksum_frame packet (by omega) (by omega),
    fillIpv4Checksum_frame packet (by omega) (by omega)]

theorem length_syntheticCells (size : U64) (src dst number : U32) (sentMs : U64) :
    (syntheticCells size src dst number sentMs).length = size.toNat := by
  simp [syntheticCells]

theorem syntheticCells_header {size : U64} (h : 20 ≤ size.toNat) (src dst number : U32)
    (sentMs : U64) :
    read8 (syntheticCells size src dst number sentMs) 0 = 0x45 ∧
      read16 (syntheticCells size src dst number sentMs) 2 = size.setWidth 16 ∧
      read32 (syntheticCells size src dst number sentMs) 12 = src ∧
      read32 (syntheticCells size src dst number sentMs) 16 = dst := by
  have hwidth : ∀ v : U32, (v.setWidth 64).setWidth 32 = v := by
    intro v
    apply BitVec.eq_of_toNat_eq
    have := v.isLt
    rw [BitVec.toNat_setWidth, BitVec.toNat_setWidth]
    omega
  unfold syntheticCells
  dsimp only
  refine ⟨?_, ?_, ?_, ?_⟩
  · iterate 15 rw [read8_put_outside _ _ (by omega)]
    rw [read8_put_one _ _ (by simp; omega)]
    rfl
  · iterate 13 rw [read16_put_outside _ _ (by omega)]
    rw [read16_put _ _ (by simp; omega)]
  · iterate 7 rw [read32_put_outside _ _ (by omega)]
    rw [read32_put _ _ (by simp; omega), hwidth]
  · iterate 6 rw [read32_put_outside _ _ (by omega)]
    rw [read32_put _ _ (by simp; omega), hwidth]

theorem makeSynthetic_packet {size : U64} (hmin : kSyntheticMinSize ≤ size.toNat)
    (hmax : size.toNat ≤ kMaxInner) (src dst number : U32) (sentMs : U64) :
    Ipv4Packet (makeSynthetic size src dst number sentMs) src dst := by
  have h20 : 20 ≤ size.toNat := hmin
  have h1452 : size.toNat ≤ 1452 := hmax
  obtain ⟨hfirst, htotal, hsrc, hdst⟩ := syntheticCells_header h20 src dst number sentMs
  have hlen : 20 ≤ (syntheticCells size src dst number sentMs).length := by
    rw [length_syntheticCells]
    exact h20
  have hbyte : read8 (makeSynthetic size src dst number sentMs) 0 = 0x45 := by
    rw [makeSynthetic, fillIpv4Checksum_frame _ (by omega) (by omega), hfirst]
  have hihl : (read8 (makeSynthetic size src dst number sentMs) 0).toNat % 16 = 5 := by
    rw [hbyte]
    rfl
  constructor
  · rw [hbyte]
    rfl
  · rw [hihl, makeSynthetic, length_fillIpv4Checksum]
    omega
  · rw [hihl, ← foldCarry_ones, makeSynthetic]
    apply fillIpv4Checksum_sum hlen
    rw [hfirst]
    rfl
  · rw [makeSynthetic, length_fillIpv4Checksum, length_syntheticCells,
      read16_fillIpv4Checksum _ (by omega), htotal, BitVec.toNat_setWidth]
    omega
  · rw [makeSynthetic, read32_fillIpv4Checksum _ (by omega), hsrc]
  · rw [makeSynthetic, read32_fillIpv4Checksum _ (by omega), hdst]

/-! ## Writer and checker agree -/

/-- The test of a header is that of its sum in ones' complement; filling the field passes it and
touches nothing else; and what the sender makes is what the receiver lets through. -/
theorem ipv4_checksum_agreement :
    (∀ (packet : List U8) (words : ℕ), 10 ≤ words → words ≤ 30 → 2 * words ≤ packet.length →
      (wordSum32 packet words).toNat = (headerWords packet words).sum ∧
        (fold32 (wordSum32 packet words) = 0xFFFF ↔
          (headerWords packet words).sum ≠ 0 ∧ (headerWords packet words).sum ≡ 0 [MOD 65535])) ∧
    (∀ (packet : List U8) (peerVirtualIp localVirtualIp : U32), (read8 packet 0).toNat / 16 = 4 →
      5 ≤ (read8 packet 0).toNat % 16 → (read8 packet 0).toNat % 16 * 4 ≤ packet.length →
      (checkInnerIpv4 packet peerVirtualIp localVirtualIp = some .checksum ↔
        fold32 (wordSum32 packet ((read8 packet 0).toNat % 16 * 2)) ≠ 0xFFFF)) ∧
    (∀ packet : List U8, 20 ≤ packet.length → (read8 packet 0).toNat % 16 = 5 →
      (fillIpv4Checksum packet).length = packet.length ∧
        (∀ i, i ≠ 10 → i ≠ 11 → read8 (fillIpv4Checksum packet) i = read8 packet i) ∧
        fold32 (wordSum32 (fillIpv4Checksum packet) 10) = 0xFFFF) ∧
    (∀ (size : U64) (src dst number : U32) (sentMs : U64),
      kSyntheticMinSize ≤ size.toNat → size.toNat ≤ kMaxInner →
      ∀ peerVirtualIp localVirtualIp : U32,
        checkInnerIpv4 (makeSynthetic size src dst number sentMs) peerVirtualIp
          localVirtualIp = none ↔
          peerVirtualIp = src ∧ localVirtualIp = dst) := by
  refine ⟨?_, ?_, ?_, ?_⟩
  · intro packet words _ hmax _
    refine ⟨?_, ?_⟩
    · rw [wordSum32_toNat packet (by omega), wordSum_eq]
    · rw [fold32_ones packet (by omega), foldCarry_ones, wordSum_eq, Nat.pos_iff_ne_zero]
      rfl
  · intro packet peerVirtualIp localVirtualIp hversion hihl hlen
    have hne : packet.isEmpty = false := by
      cases packet with
      | nil =>
        simp only [List.length_nil] at hlen
        omega
      | cons => rfl
    rw [Ne, fold32_ones packet (by omega)]
    unfold checkInnerIpv4
    dsimp only
    rw [if_neg (by simp [hne, hversion]), if_neg (by omega)]
    split_ifs <;> simp_all
  · intro packet hlen hihl
    refine ⟨length_fillIpv4Checksum packet, fun i => fillIpv4Checksum_frame packet, ?_⟩
    rw [fold32_ones _ (by omega)]
    exact fillIpv4Checksum_sum hlen hihl
  · intro size src dst number sentMs hmin hmax peerVirtualIp localVirtualIp
    have hpacket := makeSynthetic_packet hmin hmax src dst number sentMs
    rw [checkInnerIpv4_passes]
    constructor
    · intro h
      exact ⟨h.source.symm.trans hpacket.source, h.destination.symm.trans hpacket.destination⟩
    · rintro ⟨rfl, rfl⟩
      exact hpacket

end Sangtachi.DataSender
