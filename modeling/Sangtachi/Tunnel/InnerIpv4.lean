import Sangtachi.Tunnel.Packet

/-! # Inner packet checks

The checks on the IPv4 packet carried by a DATA payload, in the order the receiver
makes them. -/
namespace Sangtachi.InnerIpv4

open Sangtachi.BigEndian

inductive InnerError where
  | notIpv4 | ihl | checksum | length | src | dst
  deriving DecidableEq, Repr

/-- Sum of the 16-bit words of the first `n` bytes (`n` even). -/
def wordSum (payload : List U8) : ℕ → ℕ
  | 0 => 0
  | words + 1 =>
    wordSum payload words +
      ((read8 payload (2 * words)).toNat * 256 + (read8 payload (2 * words + 1)).toNat)

/-- One pass of the carry fold; the loop runs it until nothing is carried. -/
def foldOnce (sum : ℕ) : ℕ := sum % 65536 + sum / 65536

theorem foldOnce_lt {sum : ℕ} (h : sum / 65536 ≠ 0) : foldOnce sum < sum := by
  unfold foldOnce
  omega

def foldCarry (sum : ℕ) : ℕ :=
  if _h : sum / 65536 ≠ 0 then foldCarry (foldOnce sum) else sum
termination_by sum
decreasing_by exact foldOnce_lt _h

def checkInnerIpv4 (payload : List U8) (peerVirtualIp localVirtualIp : U32) : Option InnerError :=
  if payload.isEmpty ∨ (read8 payload 0).toNat / 16 ≠ 4 then some .notIpv4
  else
    let ihl := (read8 payload 0).toNat % 16
    if ihl < 5 ∨ payload.length < ihl * 4 then some .ihl
    else if foldCarry (wordSum payload (ihl * 2)) ≠ 0xFFFF then some .checksum
    else if (read16 payload 2).toNat ≠ payload.length then some .length
    else if read32 payload 12 ≠ peerVirtualIp then some .src
    else if read32 payload 16 ≠ localVirtualIp then some .dst
    else none

/-! ## What the checks establish -/

theorem foldOnce_mod (sum : ℕ) : foldOnce sum % 65535 = sum % 65535 := by
  unfold foldOnce
  omega

theorem foldCarry_mod (sum : ℕ) : foldCarry sum % 65535 = sum % 65535 := by
  fun_induction foldCarry sum with
  | case1 sum _ ih => rw [ih, foldOnce_mod]
  | case2 sum _ => rfl

theorem foldCarry_lt (sum : ℕ) : foldCarry sum < 65536 := by
  fun_induction foldCarry sum with
  | case1 sum _ ih => exact ih
  | case2 sum h => omega

theorem foldCarry_pos {sum : ℕ} (h : 0 < sum) : 0 < foldCarry sum := by
  fun_induction foldCarry sum with
  | case1 sum hcarry ih =>
    apply ih
    unfold foldOnce
    omega
  | case2 sum _ => exact h

/-- The fold gives all ones exactly for the positive multiples of `0xFFFF`. -/
theorem foldCarry_ones {sum : ℕ} : foldCarry sum = 0xFFFF ↔ 0 < sum ∧ sum % 65535 = 0 := by
  have hmod := foldCarry_mod sum
  have hlt := foldCarry_lt sum
  constructor
  · intro h
    rw [h] at hmod
    refine ⟨?_, by omega⟩
    by_contra hzero
    obtain rfl : sum = 0 := by omega
    rw [show foldCarry 0 = 0 by unfold foldCarry; rfl] at h
    cases h
  · rintro ⟨hpos, hzero⟩
    have := foldCarry_pos hpos
    omega

/-- An IPv4 packet from `src` to `dst` that is whole: its header fits, the words of the header sum
to a multiple of `0xFFFF`, and it says its own length. -/
structure Ipv4Packet (bytes : List U8) (src dst : U32) : Prop where
  version : (read8 bytes 0).toNat / 16 = 4
  header : 5 ≤ (read8 bytes 0).toNat % 16 ∧ (read8 bytes 0).toNat % 16 * 4 ≤ bytes.length
  checksum : 0 < wordSum bytes ((read8 bytes 0).toNat % 16 * 2) ∧
    wordSum bytes ((read8 bytes 0).toNat % 16 * 2) % 65535 = 0
  total : (read16 bytes 2).toNat = bytes.length
  source : read32 bytes 12 = src
  destination : read32 bytes 16 = dst

theorem checkInnerIpv4_passes {payload : List U8} {peerVirtualIp localVirtualIp : U32} :
    checkInnerIpv4 payload peerVirtualIp localVirtualIp = none ↔
      Ipv4Packet payload peerVirtualIp localVirtualIp := by
  constructor
  · intro h
    unfold checkInnerIpv4 at h
    dsimp only at h
    split_ifs at h with hversion hihl hsum htotal hsrc hdst
    push Not at hversion hihl
    exact ⟨hversion.2, hihl, foldCarry_ones.mp (not_not.mp hsum), not_not.mp htotal,
      not_not.mp hsrc, not_not.mp hdst⟩
  · rintro ⟨hversion, hihl, hsum, htotal, hsrc, hdst⟩
    have hne : payload.isEmpty = false := by
      cases payload with
      | nil =>
        simp only [List.length_nil] at hihl
        omega
      | cons => rfl
    unfold checkInnerIpv4
    dsimp only
    rw [if_neg (by simp [hne, hversion]), if_neg (by omega),
      if_neg (not_not.mpr (foldCarry_ones.mpr hsum)),
      if_neg (not_not.mpr htotal), if_neg (not_not.mpr hsrc), if_neg (not_not.mpr hdst)]

end Sangtachi.InnerIpv4
