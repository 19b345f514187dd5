import Mathlib.Algebra.Order.Group.Nat
import Mathlib.Tactic.Ring
import Mathlib.Tactic.Linarith

/-! # Buckets checked first and charged later

Callers look at a shared bucket before they start and are charged when they end, and a charge on
an empty bucket is forgiven. At most `room` callers are past the check at one time, so one unit of
credit can let `room` of them through. The potential below pays for that: a window of any history
makes at most `room` charges a unit of waiting, after a burst of bounded size. -/
namespace Sangtachi.LateCharge

/-- The credit of the bucket as of now, and the callers that are past the check. -/
structure Standing where
  credit : ℕ
  passed : ℕ

variable {cap unit room top : ℕ}

/-- A charge takes one unit, or nothing from a bucket that holds less than one. -/
def charge (unit credit : ℕ) : ℕ := if unit ≤ credit then credit - unit else credit

/-- One change of the standing, with the time it takes and the charges it makes. -/
inductive Step (cap unit room : ℕ) : Standing → ℕ → ℕ → Standing → Prop where
  | wait (credit passed elapsed : ℕ) :
      Step cap unit room ⟨credit, passed⟩ elapsed 0 ⟨min cap (credit + elapsed), passed⟩
  | idle (credit passed : ℕ) : Step cap unit room ⟨credit, passed⟩ 0 0 ⟨credit, passed⟩
  | pass (credit passed : ℕ) : unit ≤ credit → passed < room →
      Step cap unit room ⟨credit, passed⟩ 0 0 ⟨credit, passed + 1⟩
  | leave (credit passed : ℕ) : Step cap unit room ⟨credit, passed + 1⟩ 0 0 ⟨credit, passed⟩
  | charge (credit passed : ℕ) :
      Step cap unit room ⟨credit, passed + 1⟩ 0 1 ⟨LateCharge.charge unit credit, passed⟩

/-- The changes of a window, with the time and the charges added up. -/
inductive Run (cap unit room : ℕ) : Standing → ℕ → ℕ → Standing → Prop where
  | done (s : Standing) : Run cap unit room s 0 0 s
  | more {s s' s'' : Standing} {elapsed elapsed' charges charges' : ℕ} :
      Step cap unit room s elapsed charges s' → Run cap unit room s' elapsed' charges' s'' →
      Run cap unit room s (elapsed + elapsed') (charges + charges') s''

theorem Run.snoc {s s' s'' : Standing} {elapsed elapsed' charges charges' : ℕ}
    (h : Run cap unit room s elapsed charges s')
    (hstep : Step cap unit room s' elapsed' charges' s'') :
    Run cap unit room s (elapsed + elapsed') (charges + charges') s'' := by
  induction h with
  | done s =>
    rw [Nat.zero_add, Nat.zero_add]
    exact .more hstep (.done _)
  | more hfirst _ ih =>
    rw [Nat.add_assoc, Nat.add_assoc]
    exact .more hfirst (ih hstep)

/-- A bucket that still holds a unit owes nothing to those past the check: they share its last
unit. Below a unit, each of them can still make a charge. -/
def Standing.owed (unit room : ℕ) (s : Standing) : ℕ :=
  if unit ≤ s.credit then s.credit / unit + room - 1 else s.passed

/-- The charges to come, in credit: those owed, and the part of a unit already waited for. -/
def Standing.potential (unit room : ℕ) (s : Standing) : ℕ :=
  s.owed unit room * unit + room * (s.credit % unit)

structure Standing.Within (cap room : ℕ) (s : Standing) : Prop where
  credit : s.credit ≤ cap
  passed : s.passed ≤ room

theorem charge_le (unit credit : ℕ) : charge unit credit ≤ credit := by
  unfold charge
  split <;> omega

theorem Step.within {s s' : Standing} {elapsed charges : ℕ}
    (h : Step cap unit room s elapsed charges s') (hw : s.Within cap room) :
    s'.Within cap room := by
  cases h with
  | wait credit passed => exact ⟨min_le_left _ _, hw.passed⟩
  | idle => exact hw
  | pass credit passed _ hroom => exact ⟨hw.credit, hroom⟩
  | leave credit passed =>
    have hp := hw.passed
    exact ⟨hw.credit, by simp only at hp ⊢; omega⟩
  | charge credit passed =>
    have hp := hw.passed
    exact ⟨(charge_le unit credit).trans hw.credit, by simp only at hp ⊢; omega⟩

theorem potential_some {credit passed : ℕ} (h : unit ≤ credit) :
    (Standing.mk credit passed).potential unit room =
      (credit / unit + room - 1) * unit + room * (credit % unit) := by
  simp [Standing.potential, Standing.owed, h]

theorem potential_none {credit passed : ℕ} (h : credit < unit) :
    (Standing.mk credit passed).potential unit room = passed * unit + room * credit := by
  simp [Standing.potential, Standing.owed, h, Nat.mod_eq_of_lt h]

/-- From one unit on, `room` credits more are worth at least what the potential grows by. -/
theorem potential_mono {low high passed passed' : ℕ} (hroom : 0 < room)
    (hlow : unit ≤ low) (h : low ≤ high) :
    (Standing.mk high passed').potential unit room ≤
      (Standing.mk low passed).potential unit room + room * (high - low) := by
  rw [potential_some hlow, potential_some (hlow.trans h)]
  have hq : low / unit ≤ high / unit := Nat.div_le_div_right h
  obtain ⟨k, hk⟩ : ∃ k, high / unit = low / unit + k := ⟨_, (Nat.add_sub_of_le hq).symm⟩
  obtain ⟨r, hr⟩ : ∃ r, room = r + 1 := ⟨room - 1, by omega⟩
  have hl := Nat.div_add_mod low unit
  have hh := Nat.div_add_mod high unit
  obtain ⟨d, rfl⟩ : ∃ d, high = low + d := ⟨high - low, by omega⟩
  subst hr
  rw [hk] at hh ⊢
  have hd : unit * k + (low + d) % unit = low % unit + d := by
    rw [Nat.mul_add] at hh
    omega
  have hone : ∀ a : ℕ, a + (r + 1) - 1 = a + r := fun a => by omega
  rw [hone, hone]
  have hgain : unit * k ≤ (r + 1) * (unit * k) := Nat.le_mul_of_pos_left _ (by omega)
  have hd' : (r + 1) * (unit * k) + (r + 1) * ((low + d) % unit) =
      (r + 1) * (low % unit) + (r + 1) * d := by
    rw [← Nat.mul_add, hd, Nat.mul_add]
  have hsub : low + d - low = d := by omega
  rw [hsub]
  nlinarith

/-- What the potential of a bucket with a unit exceeds `room` credits by is not positive. -/
theorem potential_le_mul {credit passed : ℕ} (hunit : 0 < unit) (hroom : 0 < room)
    (h : unit ≤ credit) : (Standing.mk credit passed).potential unit room ≤ room * credit := by
  rw [potential_some h]
  have hq : 0 < credit / unit := Nat.div_pos h hunit
  obtain ⟨a, ha⟩ : ∃ a, credit / unit = a + 1 := ⟨credit / unit - 1, by omega⟩
  obtain ⟨r, hr⟩ : ∃ r, room = r + 1 := ⟨room - 1, by omega⟩
  have hdiv := Nat.div_add_mod credit unit
  subst hr
  rw [ha] at hdiv ⊢
  have hone : a + 1 + (r + 1) - 1 = a + 1 + r := by omega
  rw [hone]
  calc (a + 1 + r) * unit + (r + 1) * (credit % unit)
      ≤ (r + 1) * (unit * (a + 1)) + (r + 1) * (credit % unit) := by
        apply Nat.add_le_add_right
        have hshare : a + 1 + r ≤ (r + 1) * (a + 1) := by nlinarith [Nat.zero_le (r * a)]
        calc (a + 1 + r) * unit ≤ (r + 1) * (a + 1) * unit := Nat.mul_le_mul_right unit hshare
          _ = (r + 1) * (unit * (a + 1)) := by ring
    _ = (r + 1) * credit := by rw [← Nat.mul_add, hdiv]

theorem potential_wait {credit passed : ℕ} (elapsed : ℕ) (hunit : 0 < unit) (hroom : 0 < room)
    (hcap : credit ≤ cap) :
    (Standing.mk (min cap (credit + elapsed)) passed).potential unit room ≤
      (Standing.mk credit passed).potential unit room + room * elapsed := by
  have hup : credit ≤ min cap (credit + elapsed) := by omega
  have hadd : min cap (credit + elapsed) - credit ≤ elapsed := by omega
  have hroomadd := Nat.mul_le_mul_left room hadd
  by_cases hlow : unit ≤ credit
  · exact (potential_mono hroom hlow hup).trans (Nat.add_le_add_left hroomadd _)
  · have hsplit : room * min cap (credit + elapsed) ≤ room * credit + room * elapsed := by
      rw [← Nat.mul_add]
      exact Nat.mul_le_mul_left room (by omega)
    rw [@potential_none unit room credit passed (Nat.lt_of_not_le hlow)]
    by_cases hhigh : unit ≤ min cap (credit + elapsed)
    · -- the bucket passes its first unit, and those past the check are forgotten
      have hle := @potential_le_mul unit room _ passed hunit hroom hhigh
      omega
    · rw [potential_none (Nat.lt_of_not_le hhigh)]
      omega

theorem potential_charge {credit passed : ℕ} (hunit : 0 < unit) (hpassed : passed < room) :
    (Standing.mk (charge unit credit) passed).potential unit room + unit ≤
      (Standing.mk credit (passed + 1)).potential unit room := by
  by_cases hc : unit ≤ credit
  · have hcharge : charge unit credit = credit - unit := by simp [charge, hc]
    have hdiv : credit / unit = (credit - unit) / unit + 1 := Nat.div_eq_sub_div hunit hc
    have hmod : (credit - unit) % unit = credit % unit := (Nat.mod_eq_sub_mod hc).symm
    have hq : 0 < credit / unit := Nat.div_pos hc hunit
    rw [hcharge, potential_some hc]
    by_cases hlast : unit ≤ credit - unit
    · rw [potential_some hlast, hmod]
      have hone : credit / unit + room - 1 = (credit - unit) / unit + room - 1 + 1 := by omega
      rw [hone, Nat.add_mul]
      omega
    · rw [potential_none (by omega)]
      have hrest : credit - unit = credit % unit := by
        rw [← hmod, Nat.mod_eq_of_lt (by omega)]
      have hshare : (passed + 1) * unit ≤ (credit / unit + room - 1) * unit :=
        Nat.mul_le_mul_right unit (by omega)
      rw [Nat.add_mul] at hshare
      rw [hrest]
      omega
  · have hcharge : charge unit credit = credit := by simp [charge, hc]
    rw [hcharge, potential_none (by omega), potential_none (by omega), Nat.add_mul]
    omega

theorem Step.potential {s s' : Standing} {elapsed charges : ℕ}
    (h : Step cap unit room s elapsed charges s') (hunit : 0 < unit) (hroom : 0 < room)
    (hw : s.Within cap room) :
    s'.potential unit room + charges * unit ≤ s.potential unit room + room * elapsed := by
  cases h with
  | wait credit passed =>
    have hwait := @potential_wait cap unit room credit passed elapsed hunit hroom hw.credit
    rw [Nat.zero_mul, Nat.add_zero]
    exact hwait
  | idle => omega
  | pass credit passed hcredit =>
    rw [potential_some hcredit, potential_some hcredit]
    omega
  | leave credit passed =>
    by_cases hc : unit ≤ credit
    · rw [potential_some hc, potential_some hc]
      omega
    · rw [potential_none (by omega), potential_none (by omega), Nat.add_mul]
      omega
  | charge credit passed =>
    have hp := hw.passed
    have hcharge := @potential_charge unit room credit passed hunit hp
    omega

theorem Run.potential {s s' : Standing} {elapsed charges : ℕ}
    (h : Run cap unit room s elapsed charges s') (hunit : 0 < unit) (hroom : 0 < room)
    (hw : s.Within cap room) :
    s'.potential unit room + charges * unit ≤ s.potential unit room + room * elapsed := by
  induction h with
  | done => omega
  | more hstep _ ih =>
    have hfirst := hstep.potential hunit hroom hw
    have hrest := ih (hstep.within hw)
    rw [Nat.add_mul, Nat.mul_add]
    omega

/-- The most that can be owed: a bucket one below its cap with a unit almost waited for. -/
theorem potential_le {s : Standing} (hunit : 0 < unit) (hroom : 0 < room) (htop : 2 ≤ top)
    (hw : s.Within (top * unit) room) :
    s.potential unit room ≤ (top + 2 * room - 2) * unit := by
  obtain ⟨credit, passed⟩ := s
  have hcredit := hw.credit
  have hpassed := hw.passed
  simp only at hcredit hpassed
  obtain ⟨t, rfl⟩ : ∃ t, top = t + 2 := ⟨top - 2, by omega⟩
  have hbound : t + 2 + 2 * room - 2 = t + 2 * room := by omega
  have hmod : credit % unit < unit := Nat.mod_lt _ hunit
  have hphase : room * (credit % unit) ≤ room * unit := Nat.mul_le_mul_left room hmod.le
  rw [hbound]
  by_cases hc : unit ≤ credit
  · rw [potential_some hc]
    have hq : credit / unit ≤ t + 2 := Nat.div_le_of_le_mul (by rw [Nat.mul_comm]; exact hcredit)
    by_cases hfull : credit / unit = t + 2
    · -- a full bucket has nothing waited for
      have hdiv := Nat.div_add_mod credit unit
      rw [hfull, Nat.mul_comm] at hdiv
      have hzero : credit % unit = 0 := by omega
      rw [hfull, hzero, Nat.mul_zero, Nat.add_zero]
      exact Nat.mul_le_mul_right unit (by omega)
    · have hcount : (credit / unit + room - 1) * unit ≤ (t + room) * unit :=
        Nat.mul_le_mul_right unit (by omega)
      have hsplit : (t + 2 * room) * unit = (t + room) * unit + room * unit := by ring
      omega
  · rw [potential_none (by omega)]
    have hcount : passed * unit ≤ room * unit := Nat.mul_le_mul_right unit hpassed
    have hwaited : room * credit ≤ room * unit := Nat.mul_le_mul_left room (by omega)
    have hsplit : (t + 2 * room) * unit = t * unit + (room * unit + room * unit) := by ring
    omega

/-- The charges of a window: one burst, and `room` for each unit of waiting. -/
theorem Run.charges_le {s s' : Standing} {elapsed charges : ℕ}
    (h : Run (top * unit) unit room s elapsed charges s') (hunit : 0 < unit) (hroom : 0 < room)
    (htop : 2 ≤ top) (hw : s.Within (top * unit) room) :
    charges * unit ≤ (top + 2 * room - 2) * unit + room * elapsed := by
  have hpay := h.potential hunit hroom hw
  have hmost := potential_le hunit hroom htop hw
  omega

end Sangtachi.LateCharge
