import Mathlib.Data.BitVec
import Mathlib.Tactic.IntervalCases

/-! # Big-endian fixed-width words

Unsigned machine words as bit vectors, and their most-significant-byte-first
encodings. Nothing here refers to a packet: a codec that writes words at offsets
uses the round trips below. -/
namespace Sangtachi.BigEndian

abbrev U8 := BitVec 8
abbrev U16 := BitVec 16
abbrev U32 := BitVec 32
abbrev U64 := BitVec 64

instance : LawfulBEq U32 := inferInstance

def write16 (v : U16) : List U8 := [(v >>> 8).setWidth 8, v.setWidth 8]

def write32 (v : U32) : List U8 :=
  [(v >>> 24).setWidth 8, (v >>> 16).setWidth 8, (v >>> 8).setWidth 8, v.setWidth 8]

def write64 (v : U64) : List U8 :=
  write32 ((v >>> 32).setWidth 32) ++ write32 (v.setWidth 32)

/-- The byte at an offset; reads past the end give zero and are guarded by callers. -/
def read8 (bytes : List U8) (offset : ℕ) : U8 := bytes.getD offset 0

def read16 (bytes : List U8) (offset : ℕ) : U16 :=
  ((read8 bytes offset).setWidth 16 <<< 8) ||| (read8 bytes (offset + 1)).setWidth 16

def read32 (bytes : List U8) (offset : ℕ) : U32 :=
  ((read8 bytes offset).setWidth 32 <<< 24) ||| ((read8 bytes (offset + 1)).setWidth 32 <<< 16) |||
    ((read8 bytes (offset + 2)).setWidth 32 <<< 8) ||| (read8 bytes (offset + 3)).setWidth 32

def read64 (bytes : List U8) (offset : ℕ) : U64 :=
  ((read32 bytes offset).setWidth 64 <<< 32) ||| (read32 bytes (offset + 4)).setWidth 64

@[simp] theorem length_write16 (v : U16) : (write16 v).length = 2 := rfl

@[simp] theorem length_write32 (v : U32) : (write32 v).length = 4 := rfl

@[simp] theorem length_write64 (v : U64) : (write64 v).length = 8 := rfl

theorem read8_append_left {xs ys : List U8} {i : ℕ} (h : i < xs.length) :
    read8 (xs ++ ys) i = read8 xs i := by
  simp [read8, List.getD, List.getElem?_append_left h]

theorem read8_append_right (xs ys : List U8) (i : ℕ) :
    read8 (xs ++ ys) (xs.length + i) = read8 ys i := by
  simp [read8, List.getD, List.getElem?_append_right]

@[simp] theorem read8_cons_zero (b : U8) (rest : List U8) : read8 (b :: rest) 0 = b := rfl

@[simp] theorem read8_cons_succ (b : U8) (rest : List U8) (i : ℕ) :
    read8 (b :: rest) (i + 1) = read8 rest i := rfl

theorem join16 (v : U16) :
    (((v >>> 8).setWidth 8).setWidth 16 <<< 8) ||| (v.setWidth 8).setWidth 16 = v := by
  apply BitVec.eq_of_getLsbD_eq
  intro i hi
  interval_cases i <;> simp

theorem join32 (v : U32) :
    (((v >>> 24).setWidth 8).setWidth 32 <<< 24) |||
      (((v >>> 16).setWidth 8).setWidth 32 <<< 16) |||
      (((v >>> 8).setWidth 8).setWidth 32 <<< 8) ||| (v.setWidth 8).setWidth 32 = v := by
  apply BitVec.eq_of_getLsbD_eq
  intro i hi
  simp only [BitVec.getLsbD_or, BitVec.getLsbD_shiftLeft, BitVec.getLsbD_setWidth,
    BitVec.getLsbD_ushiftRight]
  interval_cases i <;> simp

theorem join64 (v : U64) :
    (((v >>> 32).setWidth 32).setWidth 64 <<< 32) ||| (v.setWidth 32).setWidth 64 = v := by
  apply BitVec.eq_of_getLsbD_eq
  intro i hi
  simp only [BitVec.getLsbD_or, BitVec.getLsbD_shiftLeft, BitVec.getLsbD_setWidth,
    BitVec.getLsbD_ushiftRight]
  by_cases h : i < 32
  · simp [h, hi]
  · have hlt : i - 32 < 32 := by omega
    have hlow : i - 32 < 64 := by omega
    have hadd : 32 + (i - 32) = i := by omega
    simp [h, hlt, hlow, hadd, hi]

@[simp] theorem read16_write16 (v : U16) (rest : List U8) : read16 (write16 v ++ rest) 0 = v :=
  join16 v

@[simp] theorem read32_write32 (v : U32) (rest : List U8) : read32 (write32 v ++ rest) 0 = v :=
  join32 v

/-- Reading a word behind a block of known length reads the bytes that follow it. -/
theorem read32_append (xs ys : List U8) (i : ℕ) :
    read32 (xs ++ ys) (xs.length + i) = read32 ys i := by
  simp only [read32, Nat.add_assoc, read8_append_right]

theorem read16_append (xs ys : List U8) (i : ℕ) :
    read16 (xs ++ ys) (xs.length + i) = read16 ys i := by
  simp only [read16, Nat.add_assoc, read8_append_right]

theorem read8_drop (bytes : List U8) (pos i : ℕ) :
    read8 (bytes.drop pos) i = read8 bytes (pos + i) := by
  simp [read8, List.getD_eq_getElem?_getD]

theorem read32_drop (bytes : List U8) (pos i : ℕ) :
    read32 (bytes.drop pos) i = read32 bytes (pos + i) := by
  simp only [read32, read8_drop, Nat.add_assoc]

theorem read16_drop (bytes : List U8) (pos i : ℕ) :
    read16 (bytes.drop pos) i = read16 bytes (pos + i) := by
  simp only [read16, read8_drop, Nat.add_assoc]

theorem cut16 (a b : U8) : write16 ((a.setWidth 16 <<< 8) ||| b.setWidth 16) = [a, b] := by
  simp only [write16, List.cons.injEq, and_true]
  refine ⟨?_, ?_⟩ <;> apply BitVec.eq_of_getLsbD_eq <;> intro i hi <;> interval_cases i <;> simp

theorem cut32 (a b c d : U8) :
    write32 ((a.setWidth 32 <<< 24) ||| (b.setWidth 32 <<< 16) ||| (c.setWidth 32 <<< 8) |||
      d.setWidth 32) = [a, b, c, d] := by
  simp only [write32, List.cons.injEq, and_true]
  refine ⟨?_, ?_, ?_, ?_⟩ <;> apply BitVec.eq_of_getLsbD_eq <;> intro i hi <;>
    simp only [BitVec.getLsbD_or, BitVec.getLsbD_shiftLeft, BitVec.getLsbD_setWidth,
      BitVec.getLsbD_ushiftRight] <;>
    interval_cases i <;> simp

theorem drop_read8 (bytes : List U8) (pos : ℕ) (h : pos < bytes.length) :
    bytes.drop pos = read8 bytes pos :: bytes.drop (pos + 1) := by
  rw [List.drop_eq_getElem_cons h]
  simp [read8, List.getD_eq_getElem?_getD, h]

theorem drop_read16 (bytes : List U8) (pos : ℕ) (h : pos + 2 ≤ bytes.length) :
    bytes.drop pos = write16 (read16 bytes pos) ++ bytes.drop (pos + 2) := by
  rw [read16, cut16, drop_read8 _ _ (by omega), drop_read8 _ (pos + 1) (by omega)]
  rfl

theorem drop_read32 (bytes : List U8) (pos : ℕ) (h : pos + 4 ≤ bytes.length) :
    bytes.drop pos = write32 (read32 bytes pos) ++ bytes.drop (pos + 4) := by
  rw [read32, cut32, drop_read8 _ _ (by omega), drop_read8 _ (pos + 1) (by omega),
    drop_read8 _ (pos + 1 + 1) (by omega), drop_read8 _ (pos + 1 + 1 + 1) (by omega)]
  rfl

@[simp] theorem read64_write64 (v : U64) (rest : List U8) : read64 (write64 v ++ rest) 0 = v := by
  have hi : read32 (write64 v ++ rest) 0 = (v >>> 32).setWidth 32 := by
    simp only [write64, List.append_assoc, read32_write32]
  have lo : read32 (write64 v ++ rest) (0 + 4) = v.setWidth 32 := by
    have h := read32_append (write32 ((v >>> 32).setWidth 32)) (write32 (v.setWidth 32) ++ rest) 0
    simpa only [write64, List.append_assoc, length_write32, Nat.add_zero, Nat.zero_add,
      read32_write32] using h
  rw [read64, hi, lo, join64]

end Sangtachi.BigEndian
