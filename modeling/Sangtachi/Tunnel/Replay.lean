import Sangtachi.Core.BigEndian

/-! # Receive window

The 64-slot acceptance window over 32-bit circular sequence numbers. A decision is
computed without changing the window and is reflected only while it is still current. -/
namespace Sangtachi.Replay

open Sangtachi.BigEndian

def replayWindow : ℕ := 64

/-- Strictly newer in the circular order; equal numbers are not newer. -/
def isNewer (a b : U32) : Bool := a ≠ b ∧ a - b < 0x80000000#32

inductive ReplayVerdict where
  | advance | reorder | duplicate | tooOld
  deriving DecidableEq, Repr

structure ReplayDecision where
  verdict : ReplayVerdict
  seq : U32
  distance : U32 := 0
  pktPos : ℕ := 0
  deriving DecidableEq, Repr

def ReplayDecision.accepted (d : ReplayDecision) : Bool :=
  d.verdict = .advance ∨ d.verdict = .reorder

def ReplayDecision.advanced (d : ReplayDecision) : Bool := d.verdict = .advance

structure ReplayWindow where
  highest : U32 := 0
  position : ℕ := 0
  seenBits : U64 := 0
  initialized : Bool := false
  deriving DecidableEq, Repr

/-- Positions are counted in 64 bits. -/
def wrapPosition (n : ℕ) : ℕ := n % 2 ^ 64

def bitForBack (back : U32) : U64 := 1#64 <<< (back - 1).toNat

def ReplayWindow.check (w : ReplayWindow) (seq : U32) : ReplayDecision :=
  if !w.initialized then { verdict := .advance, seq := seq, pktPos := replayWindow }
  -- equality first: below it would look like zero steps back
  else if seq = w.highest then { verdict := .duplicate, seq := seq }
  else if isNewer seq w.highest then
    let shift := seq - w.highest
    { verdict := .advance, seq := seq, distance := shift, pktPos := wrapPosition (w.position +
      shift.toNat) }
  else
    let back := w.highest - seq
    if replayWindow < back.toNat then { verdict := .tooOld, seq := seq, distance := back }
    else if w.seenBits &&& bitForBack back ≠ 0 then
      { verdict := .duplicate, seq := seq, distance := back }
    else
      { verdict := .reorder, seq := seq, distance := back, pktPos := wrapPosition (w.position +
        2 ^ 64 - back.toNat) }

/-- Reflects a decision made on the present state; any other is refused. -/
def ReplayWindow.commit (w : ReplayWindow) (d : ReplayDecision) : ReplayWindow × Bool :=
  if !d.accepted then (w, false)
  else if w.check d.seq ≠ d then (w, false)
  else if !w.initialized then
    ({ highest := d.seq, position := replayWindow, seenBits := 0, initialized := true }, true)
  else if d.verdict = .advance then
    let shift := d.distance
    let seen :=
      if replayWindow < shift.toNat then 0
      else if shift.toNat = replayWindow then bitForBack shift
      else (w.seenBits <<< shift.toNat) ||| bitForBack shift
    ({ w with highest := d.seq, position := wrapPosition (w.position +
      shift.toNat), seenBits := seen }, true)
  else ({ w with seenBits := w.seenBits ||| bitForBack d.distance }, true)

def ReplayWindow.accept (w : ReplayWindow) (seq : U32) : ReplayDecision × ReplayWindow :=
  let d := w.check seq
  (d, if d.accepted then (w.commit d).1 else w)

def ReplayWindow.reset (_ : ReplayWindow) : ReplayWindow := {}

/-! ## What a decision says and does -/

@[simp] theorem check_seq (w : ReplayWindow) (seq : U32) : (w.check seq).seq = seq := by
  simp only [ReplayWindow.check]
  split_ifs <;> rfl

@[simp] theorem accept_fst (w : ReplayWindow) (seq : U32) : (w.accept seq).1 = w.check seq := rfl

theorem accept_rejected {w : ReplayWindow} {seq : U32} (h : (w.check seq).accepted = false) :
    (w.accept seq).2 = w := by
  simp [ReplayWindow.accept, h]

theorem check_fresh {w : ReplayWindow} (h : w.initialized = false) (seq : U32) :
    (w.check seq).verdict = .advance := by
  simp [ReplayWindow.check, h]

theorem check_newer {w : ReplayWindow} {seq : U32} (h : isNewer seq w.highest) :
    (w.check seq).verdict = .advance := by
  have hne : seq ≠ w.highest := by
    intro heq
    simp [isNewer, heq] at h
  unfold ReplayWindow.check
  split_ifs <;> simp_all

/-- After an accepted packet the window holds a highest number: the packet's own when it
advanced, the old one when it only filled a gap. -/
theorem accept_highest {w : ReplayWindow} {seq : U32} (h : (w.check seq).accepted) :
    (w.accept seq).2.initialized = true ∧
      ((w.accept seq).2.highest = seq ∨
        (w.initialized = true ∧ (w.accept seq).2.highest = w.highest)) := by
  simp only [ReplayWindow.accept, h, if_true, ReplayWindow.commit, check_seq, Bool.not_true,
    Bool.false_eq_true, if_false, ne_eq, not_true_eq_false]
  by_cases hi : w.initialized
  · simp only [hi, Bool.not_true, Bool.false_eq_true, if_false]
    split_ifs <;> simp
  · simp [hi]

theorem isNewer_of_lt {a b : U32} (hab : b.toNat < a.toNat) (ha : a.toNat < 2 ^ 31) :
    isNewer a b := by
  have hne : a ≠ b := by
    rintro rfl
    exact lt_irrefl _ hab
  have hlt : a - b < 0x80000000#32 := by bv_omega
  simp [isNewer, hne, hlt]

/-! ## What the window has seen -/

theorem getLsbD_bitForBack {back : U32} (hpos : 0 < back.toNat) (k : ℕ) :
    (bitForBack back).getLsbD k = (decide (k < 64) && decide (k = back.toNat - 1)) := by
  have hsub : (back - 1).toNat = back.toNat - 1 := by bv_omega
  unfold bitForBack
  rw [hsub]
  simp only [BitVec.getLsbD_shiftLeft, BitVec.getLsbD_one]
  by_cases hk : k = back.toNat - 1
  · subst hk
    simp
  · simp only [hk, decide_false, Bool.and_false]
    by_cases hlt : k < back.toNat - 1
    · simp [hlt]
    · have hne : k - (back.toNat - 1) ≠ 0 := by omega
      simp [hne]

theorem bitForBack_self {back : U32} (hpos : 0 < back.toNat) (hle : back.toNat ≤ replayWindow) :
    (bitForBack back).getLsbD (back.toNat - 1) = true := by
  have hlt : back.toNat - 1 < 64 := by
    unfold replayWindow at hle
    omega
  rw [getLsbD_bitForBack hpos, decide_eq_true hlt, decide_eq_true rfl]
  rfl

theorem masked_ne_zero {bits : U64} {back : U32} (hpos : 0 < back.toNat)
    (hle : back.toNat ≤ replayWindow) :
    bits &&& bitForBack back ≠ 0 ↔ bits.getLsbD (back.toNat - 1) = true := by
  constructor
  · intro h
    by_contra hbit
    apply h
    apply BitVec.eq_of_getLsbD_eq
    intro k _
    rw [BitVec.getLsbD_and, getLsbD_bitForBack hpos]
    by_cases hk : k = back.toNat - 1
    · subst hk
      simp only [Bool.not_eq_true] at hbit
      simp [hbit]
    · simp [hk]
  · intro hbit hzero
    have hself : (bits &&& bitForBack back).getLsbD (back.toNat - 1) = true := by
      rw [BitVec.getLsbD_and, hbit, bitForBack_self hpos hle, Bool.and_true]
    rw [hzero] at hself
    simp at hself

/-- `seen` are the numbers the window has accepted, counted without wrap-around. -/
structure Tracks (w : ReplayWindow) (seen : Set ℕ) : Prop where
  small : ∀ i ∈ seen, i < 2 ^ 31
  fresh : w.initialized = false → seen = ∅
  top : w.initialized = true → w.highest.toNat ∈ seen
  below : w.initialized = true → ∀ i ∈ seen, i ≤ w.highest.toNat
  recent : w.initialized = true → ∀ i ∈ seen, i < w.highest.toNat →
    w.highest.toNat - i ≤ replayWindow →
    w.seenBits.getLsbD (w.highest.toNat - i - 1) = true

theorem tracks_reset (w : ReplayWindow) : Tracks w.reset ∅ where
  small _ h := h.elim
  fresh _ := rfl
  top h := by cases h
  below h := by cases h
  recent h := by cases h

theorem toNat_ofNat_small {i : ℕ} (hi : i < 2 ^ 31) : (BitVec.ofNat 32 i).toNat = i := by
  rw [BitVec.toNat_ofNat]
  exact Nat.mod_eq_of_lt (by omega)

theorem Tracks.advance {w : ReplayWindow} {seen : Set ℕ} (h : Tracks w seen)
    (hinit : w.initialized = true) {i : ℕ} (hi : i < 2 ^ 31)
    (hnewer : isNewer (BitVec.ofNat 32 i) w.highest = true) :
    w.highest.toNat < i ∧ (BitVec.ofNat 32 i - w.highest).toNat = i - w.highest.toNat := by
  have hsmall := h.small _ (h.top hinit)
  have hval := toNat_ofNat_small hi
  simp only [isNewer, decide_eq_true_eq] at hnewer
  obtain ⟨hne, hlt⟩ := hnewer
  have hne' : i ≠ w.highest.toNat := by
    intro he
    apply hne
    apply BitVec.eq_of_toNat_eq
    rw [hval, he]
  generalize BitVec.ofNat 32 i = x at hval hlt
  constructor
  · bv_omega
  · bv_omega

theorem Tracks.behind {w : ReplayWindow} {seen : Set ℕ} (h : Tracks w seen)
    (hinit : w.initialized = true) {i : ℕ} (hi : i < 2 ^ 31) (hne : BitVec.ofNat 32 i ≠ w.highest)
    (hnewer : ¬isNewer (BitVec.ofNat 32 i) w.highest = true) :
    i < w.highest.toNat ∧ (w.highest - BitVec.ofNat 32 i).toNat = w.highest.toNat - i := by
  have hsmall := h.small _ (h.top hinit)
  have hval := toNat_ofNat_small hi
  simp only [isNewer, decide_eq_true_eq, not_and] at hnewer
  have hlt := hnewer hne
  have hne' : i ≠ w.highest.toNat := by
    intro he
    apply hne
    apply BitVec.eq_of_toNat_eq
    rw [hval, he]
  generalize BitVec.ofNat 32 i = x at hval hlt
  constructor
  · bv_omega
  · bv_omega

/-- The bits after an advance by `shift`. -/
def advancedBits (bits : U64) (shift : U32) : U64 :=
  if replayWindow < shift.toNat then 0
  else if shift.toNat = replayWindow then bitForBack shift
  else (bits <<< shift.toNat) ||| bitForBack shift

/-- The window after an accepted packet: begun, advanced, or with one more bit. -/
inductive Accepted (w : ReplayWindow) (seq : U32) : ReplayWindow → Prop where
  | begun : w.initialized = false →
      Accepted w seq
        { highest := seq, position := replayWindow, seenBits := 0, initialized := true }
  | advanced (position : ℕ) : w.initialized = true → isNewer seq w.highest = true →
      Accepted w seq
        { highest := seq, position := position, seenBits := advancedBits w.seenBits (seq -
          w.highest),
                       initialized := true }
  | filled : w.initialized = true → seq ≠ w.highest → isNewer seq w.highest ≠ true →
      (w.highest - seq).toNat ≤ replayWindow → w.seenBits &&& bitForBack (w.highest - seq) = 0 →
      Accepted w seq { w with seenBits := w.seenBits ||| bitForBack (w.highest - seq) }

theorem accept_cases {w : ReplayWindow} {seq : U32} (haccepted : (w.check seq).accepted = true) :
    Accepted w seq (w.accept seq).2 := by
  simp only [ReplayWindow.accept, haccepted, if_true, ReplayWindow.commit, check_seq, Bool.not_true,
    Bool.false_eq_true, if_false, ne_eq, not_true_eq_false]
  unfold ReplayWindow.check at haccepted ⊢
  by_cases hinit : w.initialized = true
  · simp only [hinit, Bool.not_true, Bool.false_eq_true, if_false] at haccepted ⊢
    by_cases heq : seq = w.highest
    · rw [if_pos heq] at haccepted
      cases haccepted
    rw [if_neg heq] at haccepted ⊢
    by_cases hnewer : isNewer seq w.highest = true
    · rw [if_pos hnewer]
      have h :=
        @Accepted.advanced w seq (wrapPosition (w.position + (seq - w.highest).toNat)) hinit hnewer
      simpa [advancedBits, hinit] using h
    · rw [if_neg hnewer] at haccepted ⊢
      by_cases hold : replayWindow < (w.highest - seq).toNat
      · rw [if_pos hold] at haccepted
        cases haccepted
      rw [if_neg hold] at haccepted ⊢
      by_cases hseen : w.seenBits &&& bitForBack (w.highest - seq) ≠ 0
      · rw [if_pos hseen] at haccepted
        cases haccepted
      rw [if_neg hseen]
      have h := Accepted.filled hinit heq hnewer (not_lt.mp hold) (not_not.mp hseen)
      simpa [hinit] using h
  · have hfresh : w.initialized = false := by simpa using hinit
    simp only [hfresh, Bool.not_false, if_true]
    exact .begun hfresh

theorem advancedBits_top {bits : U64} {shift : U32} (hpos : 0 < shift.toNat)
    (hle : shift.toNat ≤ replayWindow) :
    (advancedBits bits shift).getLsbD (shift.toNat - 1) = true := by
  have hself := bitForBack_self hpos hle
  unfold advancedBits
  rw [if_neg (not_lt.mpr hle)]
  split_ifs
  · exact hself
  · rw [BitVec.getLsbD_or, hself, Bool.or_true]

theorem advancedBits_kept {bits : U64} {shift : U32} {k : ℕ} (hk : k + shift.toNat < replayWindow)
    (hbit : bits.getLsbD k = true) :
    (advancedBits bits shift).getLsbD (k + shift.toNat) = true := by
  unfold advancedBits
  unfold replayWindow at *
  rw [if_neg (by omega), if_neg (by omega), BitVec.getLsbD_or, BitVec.getLsbD_shiftLeft,
    Nat.add_sub_cancel, hbit]
  have hnot : ¬k + shift.toNat < shift.toNat := by omega
  simp [hk, hnot]

theorem accept_tracks {w : ReplayWindow} {seen : Set ℕ} (h : Tracks w seen) {i : ℕ}
    (hi : i < 2 ^ 31) (haccepted : (w.check (BitVec.ofNat 32 i)).accepted = true) :
    i ∉ seen ∧ Tracks (w.accept (BitVec.ofNat 32 i)).2 (insert i seen) := by
  have hval := toNat_ofNat_small hi
  have hsmall : ∀ j ∈ insert i seen, j < 2 ^ 31 := by
    rintro j (rfl | hj)
    · exact hi
    · exact h.small j hj
  have hcases := accept_cases haccepted
  generalize (w.accept (BitVec.ofNat 32 i)).2 = w' at hcases ⊢
  cases hcases with
  | begun hfresh =>
    obtain rfl := h.fresh hfresh
    refine ⟨fun hmem => hmem, hsmall, fun hf => (by cases hf), fun _ => ?_,
      fun _ => ?_, fun _ => ?_⟩
    · exact Or.inl hval
    · rintro j (rfl | hj)
      · exact le_of_eq hval.symm
      · exact hj.elim
    · rintro j (rfl | hj) hlt
      · exact absurd hlt (by rw [hval]; exact lt_irrefl _)
      · exact hj.elim
  | advanced position hinit hnewer =>
    obtain ⟨habove, hshift⟩ := h.advance hinit hi hnewer
    refine ⟨fun hmem => absurd (h.below hinit i hmem) (not_le.mpr habove), hsmall,
      fun hf => (by cases hf),
      fun _ => Or.inl hval, fun _ => ?_, fun _ => ?_⟩
    · rintro j (rfl | hj)
      · exact le_of_eq hval.symm
      · exact ((h.below hinit j hj).trans (le_of_lt habove)).trans (le_of_eq hval.symm)
    · dsimp only
      rw [hval]
      rintro j (rfl | hj) hlt hnear
      · exact absurd hlt (lt_irrefl _)
      have hbelow := h.below hinit j hj
      by_cases htop : j = w.highest.toNat
      · rw [htop, ← hshift]
        exact advancedBits_top (by omega) (by omega)
      · have hbit := h.recent hinit j hj (by omega) (by omega)
        have hsplit : i - j - 1 =
          (w.highest.toNat - j - 1) + (BitVec.ofNat 32 i - w.highest).toNat := by omega
        rw [hsplit]
        exact advancedBits_kept (by omega) hbit
  | filled hinit heq hnewer hle hclear =>
    obtain ⟨hbehind, hback⟩ := h.behind hinit hi heq hnewer
    have hpos : 0 < (w.highest - BitVec.ofNat 32 i).toNat := by omega
    refine ⟨fun hmem => ?_, hsmall, fun hf => ?_, fun _ => Or.inr (h.top hinit),
      fun _ => ?_, fun _ => ?_⟩
    · have hbit := h.recent hinit i hmem hbehind (by omega)
      rw [← hback] at hbit
      exact (masked_ne_zero hpos hle).mpr hbit hclear
    · rw [show w.initialized = false from hf] at hinit
      cases hinit
    · rintro j (rfl | hj)
      · exact le_of_lt hbehind
      · exact h.below hinit j hj
    · dsimp only
      rintro j (rfl | hj) hlt hnear
      · rw [BitVec.getLsbD_or, ← hback, bitForBack_self hpos hle, Bool.or_true]
      · rw [BitVec.getLsbD_or, h.recent hinit j hj hlt hnear, Bool.true_or]

/-! ## What the window knows was handed over -/

theorem advancedBits_bit {bits : U64} {shift : U32} {k : ℕ} (hpos : 0 < shift.toNat) (hk : k < 64) :
    (advancedBits bits shift).getLsbD k = true ↔
      k + 1 = shift.toNat ∨ (shift.toNat ≤ k ∧ bits.getLsbD (k - shift.toNat) = true) := by
  have hbit := getLsbD_bitForBack hpos k
  unfold advancedBits replayWindow
  by_cases hfar : 64 < shift.toNat
  · rw [if_pos hfar]
    constructor
    · intro hzero
      simp at hzero
    · rintro (hlast | ⟨hle, -⟩)
      · omega
      · omega
  · rw [if_neg hfar]
    by_cases hedge : shift.toNat = 64
    · rw [if_pos hedge, hbit, Bool.and_eq_true, decide_eq_true_iff, decide_eq_true_iff]
      constructor
      · exact fun h => .inl (by omega)
      · rintro (hlast | ⟨hle, -⟩)
        · exact ⟨hk, by omega⟩
        · omega
    · rw [if_neg hedge, BitVec.getLsbD_or, BitVec.getLsbD_shiftLeft, hbit]
      by_cases hlow : k < shift.toNat
      · simp only [hk, hlow, decide_true, Bool.true_and, Bool.not_true, Bool.false_and,
          Bool.false_or,
          decide_eq_true_iff]
        constructor
        · exact fun h => .inl (by omega)
        · rintro (hlast | ⟨hle, -⟩)
          · omega
          · omega
      · have hne : ¬k = shift.toNat - 1 := by omega
        have hne' : ¬k + 1 = shift.toNat := by omega
        have hle : shift.toNat ≤ k := by omega
        simp [hk, hlow, hne, hne', hle]

/-- The highest number and those behind it that are marked are among `heard`. -/
structure Knows (w : ReplayWindow) (heard : List U32) : Prop where
  top : w.initialized = true → w.highest ∈ heard
  marked : w.initialized = true → ∀ back : U32, 0 < back.toNat → back.toNat ≤ replayWindow →
    w.seenBits.getLsbD (back.toNat - 1) = true → w.highest - back ∈ heard

theorem Knows.mono {w : ReplayWindow} {heard heard' : List U32} (h : Knows w heard)
    (hsub : heard ⊆ heard') :
    Knows w heard' :=
  ⟨fun hinit => hsub (h.top hinit),
    fun hinit back hpos hle hbit => hsub (h.marked hinit back hpos hle hbit)⟩

theorem accept_knows {w : ReplayWindow} {heard : List U32} {seq : U32} (h : Knows w heard)
    (hseq : seq ∈ heard) :
    Knows (w.accept seq).2 heard := by
  by_cases haccepted : (w.check seq).accepted = true
  · have hcases := accept_cases haccepted
    generalize (w.accept seq).2 = w' at hcases ⊢
    cases hcases with
    | begun hfresh =>
      refine ⟨fun _ => hseq, fun _ back hpos hle hbit => ?_⟩
      simp at hbit
    | advanced position hinit hnewer =>
      refine ⟨fun _ => hseq, fun _ back hpos hle hbit => ?_⟩
      have hshift : 0 < (seq - w.highest).toNat := by
        simp only [isNewer, decide_eq_true_eq] at hnewer
        have hne := hnewer.1
        bv_omega
      have hlt : back.toNat - 1 < 64 := by
        unfold replayWindow at hle
        omega
      dsimp only at hbit ⊢
      rcases (advancedBits_bit hshift hlt).mp hbit with hold | ⟨hbehind, hold⟩
      · -- the old highest number
        have heq : seq - back = w.highest := by bv_omega
        rw [heq]
        exact h.top hinit
      · have heq : seq - back = w.highest - (back - (seq - w.highest)) := by bv_omega
        have hsub : (back - (seq - w.highest)).toNat =
          back.toNat - (seq - w.highest).toNat := by bv_omega
        rw [heq]
        refine h.marked hinit _ (by omega) (by omega) ?_
        rw [hsub, show back.toNat - (seq - w.highest).toNat - 1 =
          back.toNat - 1 - (seq - w.highest).toNat by omega]
        exact hold
    | filled hinit heq hnewer hle hclear =>
      refine ⟨fun _ => h.top hinit, fun _ back hpos hnear hbit => ?_⟩
      dsimp only at hbit ⊢
      rw [BitVec.getLsbD_or, Bool.or_eq_true] at hbit
      rcases hbit with hold | hnew
      · exact h.marked hinit back hpos hnear hold
      · have hback : 0 < (w.highest - seq).toNat := by bv_omega
        rw [getLsbD_bitForBack hback, Bool.and_eq_true, decide_eq_true_eq,
          decide_eq_true_eq] at hnew
        have hsame : w.highest - back = seq := by bv_omega
        rw [hsame]
        exact hseq
  · rw [accept_rejected (by simpa using haccepted)]
    exact h

theorem Knows.accepts {w : ReplayWindow} {heard : List U32} {seq : U32} (h : Knows w heard)
    (hbound : seq.toNat < 2 ^ 31)
    (hnear : ∀ q ∈ heard, q ≠ seq ∧ q.toNat ≤ seq.toNat + replayWindow) :
    (w.check seq).accepted = true := by
  by_cases hinit : w.initialized = true
  · obtain ⟨hne, hle⟩ := hnear _ (h.top hinit)
    by_cases hnewer : isNewer seq w.highest = true
    · simp [ReplayDecision.accepted, check_newer hnewer]
    · have hbehind : seq.toNat < w.highest.toNat := by
        by_contra hnot
        have hne' : w.highest.toNat ≠ seq.toNat := fun heq => hne (BitVec.eq_of_toNat_eq heq)
        exact hnewer (isNewer_of_lt (by omega) hbound)
      have hback : (w.highest - seq).toNat = w.highest.toNat - seq.toNat := by bv_omega
      have hnear' : ¬replayWindow < (w.highest - seq).toNat := by omega
      have hclear : ¬w.seenBits &&& bitForBack (w.highest - seq) ≠ 0 := by
        rw [masked_ne_zero (by omega) (not_lt.mp hnear')]
        intro hbit
        have hknown := h.marked hinit (w.highest - seq) (by omega) (not_lt.mp hnear') hbit
        have heq : w.highest - (w.highest - seq) = seq := by bv_omega
        exact (hnear _ (heq ▸ hknown)).1 rfl
      unfold ReplayWindow.check
      rw [if_neg (by simp [hinit]), if_neg (Ne.symm hne), if_neg hnewer]
      dsimp only
      rw [if_neg hnear', if_neg hclear]
      rfl
  · simp [ReplayDecision.accepted, check_fresh (show w.initialized = false by simpa using hinit)]

end Sangtachi.Replay
