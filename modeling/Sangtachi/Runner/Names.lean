import Sangtachi.Runner.Runner

/-! # Names of timers

The names of the lobby's timers, those of its STUN client and those of the rest of the program are
told apart by their text. -/
namespace Sangtachi.Runner

open Sangtachi.BigEndian Sangtachi.Timers
open Sangtachi.Network
  (parseDecimal parseDecimal_eq_some_iff decimal_digits decimal_injective isAsciiDigit)
open Sangtachi.Lobby (Bytes ascii decimal TimerName)
open Sangtachi.StunClient (Owned retryTimer deadlineTimer retryName deadlineName)

theorem ascii_append (s t : String) : ascii (s ++ t) = ascii s ++ ascii t := by
  unfold ascii
  rw [String.toList_append, List.map_append]

theorem nameOf_punch (peerId : U32) : nameOf (.punch peerId) = punchName ++ decimal peerId.toNat :=
  ascii_append "control.punch." _

theorem fold_decimal (n : ℕ) : (decimal n).foldl (fun n c => n * 10 + (c.toNat - 0x30)) 0 = n := by
  have hread : parseDecimal (n + 1) n (decimal n) = some n :=
    (parseDecimal_eq_some_iff (Nat.succ_pos n)
      ((Nat.lt_succ_self n).trans (Nat.lt_pow_self (by decide)))).mpr ⟨le_rfl, rfl⟩
  unfold parseDecimal at hread
  dsimp only at hread
  split_ifs at hread
  exact Option.some.inj hread

theorem decimal_nonempty (n : ℕ) : decimal n ≠ [] := by
  intro hempty
  have hread : parseDecimal (n + 1) n (decimal n) = some n :=
    (parseDecimal_eq_some_iff (Nat.succ_pos n)
      ((Nat.lt_succ_self n).trans (Nat.lt_pow_self (by decide)))).mpr ⟨le_rfl, rfl⟩
  unfold parseDecimal at hread
  rw [if_pos (.inl hempty)] at hread
  cases hread

theorem punchTimerPeer_name (peerId : U32) :
    punchTimerPeer (nameOf (.punch peerId)) = some peerId := by
  unfold punchTimerPeer
  dsimp only
  rw [nameOf_punch, List.take_left, List.drop_left, if_neg (not_not.mpr rfl),
    if_neg (decimal_nonempty _), if_neg,
    fold_decimal, if_pos peerId.isLt, BitVec.ofNat_toNat, BitVec.setWidth_eq]
  rw [Bool.not_eq_true, Bool.not_eq_false', List.all_eq_true]
  exact decimal_digits _

theorem punch_ne {name : Bytes} (h : name.take punchName.length ≠ punchName) (peerId : U32) :
    nameOf (.punch peerId) ≠ name := by
  intro heq
  apply h
  rw [← heq, nameOf_punch, List.take_left]

theorem timerOf_name {n : TimerName} (h : Lobby.ownsTimer n = true) :
    ownsTimer (nameOf n) = true ∧ timerOf (nameOf n) = some n := by
  cases n with
  | retry => exact ⟨by decide +kernel, by decide +kernel⟩
  | poll => exact ⟨by decide +kernel, by decide +kernel⟩
  | deadline => exact ⟨by decide +kernel, by decide +kernel⟩
  | hostReport => exact ⟨by decide +kernel, by decide +kernel⟩
  | punch peerId =>
    have hpeer := punchTimerPeer_name peerId
    have hretry : nameOf (.punch peerId) ≠ nameOf .retry := punch_ne (by decide +kernel) peerId
    have hpoll : nameOf (.punch peerId) ≠ nameOf .poll := punch_ne (by decide +kernel) peerId
    have hdeadline : nameOf (.punch peerId) ≠ nameOf .deadline :=
      punch_ne (by decide +kernel) peerId
    have hreport : nameOf (.punch peerId) ≠ nameOf .hostReport :=
      punch_ne (by decide +kernel) peerId
    constructor
    · unfold ownsTimer
      rw [hpeer]
      simp
    · unfold timerOf
      rw [if_neg hretry, if_neg hpoll, if_neg hdeadline, if_neg hreport, hpeer]
      dsimp only
      rw [if_pos rfl]
  | stunRetry server => cases h
  | stunDeadline server => cases h
  | other text => cases h

theorem nameOf_injective {m n : TimerName} (hm : Lobby.ownsTimer m = true)
    (hn : Lobby.ownsTimer n = true) (h : nameOf m = nameOf n) :
    m = n := by
  have hread := (timerOf_name hm).2
  rw [h, (timerOf_name hn).2] at hread
  exact (Option.some.inj hread).symm

/-- The names of a STUN client begin with another letter than those of the lobby. -/
theorem owned_head {name : Bytes} (h : Owned name) : name.head? = some 0x73 := by
  obtain ⟨i, rfl | rfl⟩ := h
  · exact List.head?_append_of_ne_nil _ (by decide)
  · exact List.head?_append_of_ne_nil _ (by decide)

theorem ownsTimer_head {name : Bytes} (h : ownsTimer name = true) : name.head? = some 0x63 := by
  unfold ownsTimer at h
  simp only [Bool.or_eq_true, decide_eq_true_eq] at h
  rcases h with (((rfl | rfl) | rfl) | rfl) | hpunch
  · decide +kernel
  · decide +kernel
  · decide +kernel
  · decide +kernel
  · obtain ⟨peerId, hpeer⟩ := Option.isSome_iff_exists.mp hpunch
    unfold punchTimerPeer at hpeer
    dsimp only at hpeer
    split_ifs at hpeer with hfront
    rw [not_not] at hfront
    rw [← List.take_append_drop punchName.length name, hfront]
    exact List.head?_append_of_ne_nil _ (by decide +kernel)

theorem owned_not_lobby {name : Bytes} (h : Owned name) : ownsTimer name = false := by
  by_contra hlobby
  have hhead := ownsTimer_head (by simpa using hlobby)
  rw [owned_head h] at hhead
  exact absurd hhead (by decide)

end Sangtachi.Runner
