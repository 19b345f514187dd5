import Sangtachi.Tunnel.Replay

/-! # The window over unbounded positions

What the receive window is for: every number stands for one position on a line without end, and a
position is accepted once. The specification keeps the set of positions it has accepted; the window
keeps 64 bits of it and a position in 64 bits. -/
namespace Sangtachi.Replay

open Sangtachi.BigEndian

/-! ## The specification -/

/-- `first` stands at position 64; `top` is the highest position so far. -/
structure SpecWindow where
  first : U32
  top : ℤ
  accepted : List ℤ
  deriving DecidableEq, Repr

def SpecWindow.place (sp : SpecWindow) (seq : U32) : ℤ :=
  sp.top + Int.bmod ((seq.toNat : ℤ) - sp.first.toNat + 64 - sp.top) (2 ^ 32)

structure SpecDecision where
  verdict : ReplayVerdict
  position : ℤ
  deriving DecidableEq, Repr

def SpecDecision.accepted (d : SpecDecision) : Bool := d.verdict = .advance ∨ d.verdict = .reorder

def SpecWindow.judge (sp : SpecWindow) (p : ℤ) : ReplayVerdict :=
  if sp.top < p then .advance
  else if p = sp.top then .duplicate
  else if p < sp.top - 64 then .tooOld
  else if p ∈ sp.accepted then .duplicate
  else .reorder

def specCheck : Option SpecWindow → U32 → SpecDecision
  | none, _ => ⟨.advance, 64⟩
  | some sp, seq => ⟨sp.judge (sp.place seq), sp.place seq⟩

def specAccept : Option SpecWindow → U32 → Option SpecWindow
  | none, seq => some ⟨seq, 64, [64]⟩
  | some sp, seq =>
    let d := specCheck (some sp) seq
    if d.accepted then
      some ⟨sp.first, max sp.top d.position, d.position :: sp.accepted⟩ else some sp

/-- A position is a number's when it is congruent to it and within half a turn of the highest. -/
theorem place_iff {sp : SpecWindow} {seq : U32} {p : ℤ} :
    p = sp.place seq ↔
      (∃ k : ℤ, p = (seq.toNat : ℤ) - sp.first.toNat + 64 + 2 ^ 32 * k) ∧
        sp.top - 2 ^ 31 ≤ p ∧ p ≤ sp.top + 2 ^ 31 - 1 := by
  unfold SpecWindow.place
  generalize (seq.toNat : ℤ) - sp.first.toNat + 64 = x
  have hlow : -(2 ^ 31) ≤ Int.bmod (x - sp.top) (2 ^ 32) :=
    Int.le_bmod (x := x - sp.top) (m := 2 ^ 32) (by norm_num)
  have hhigh : Int.bmod (x - sp.top) (2 ^ 32) < 2 ^ 31 := by
    have h := Int.bmod_lt (x := x - sp.top) (m := 2 ^ 32) (by norm_num)
    norm_num at h ⊢
    exact h
  obtain ⟨k, hk⟩ : ∃ k : ℤ, Int.bmod (x - sp.top) (2 ^ 32) = x - sp.top + 2 ^ 32 * k := by
    obtain ⟨k, hk⟩ := Int.dvd_bmod_sub_self (x := x - sp.top) (m := 2 ^ 32)
    refine ⟨k, ?_⟩
    have hcast : ((2 ^ 32 : ℕ) : ℤ) = 2 ^ 32 := by norm_num
    rw [hcast] at hk
    omega
  constructor
  · rintro rfl
    exact ⟨⟨k, by omega⟩, by omega, by omega⟩
  · rintro ⟨⟨j, hj⟩, hfrom, hto⟩
    omega

/-! ## The window follows it -/

/-- The window holds what the specification holds, as far as 64 bits go. -/
structure Follows (w : ReplayWindow) (sp : SpecWindow) : Prop where
  begun : w.initialized = true
  number : ∃ k : ℤ, (w.highest.toNat : ℤ) = sp.first.toNat + sp.top - 64 + 2 ^ 32 * k
  position : (w.position : ℤ) = sp.top % 2 ^ 64
  bits : ∀ b : ℕ, 1 ≤ b → b ≤ 64 → (w.seenBits.getLsbD (b - 1) = true ↔ sp.top - b ∈ sp.accepted)
  top : sp.top ∈ sp.accepted
  below : ∀ p ∈ sp.accepted, 0 ≤ p ∧ p ≤ sp.top
  start : 64 ≤ sp.top
  once : sp.accepted.Nodup

variable {w : ReplayWindow} {sp : SpecWindow} {seq : U32}

/-- Where a number stands against the highest one, in 32 bits and on the line. -/
theorem Follows.offset (h : Follows w sp) (seq : U32) : ∃ k : ℤ,
    sp.place seq - sp.top = (seq.toNat : ℤ) - w.highest.toNat + 2 ^ 32 * k ∧
      -(2 ^ 31) ≤ sp.place seq - sp.top ∧ sp.place seq - sp.top ≤ 2 ^ 31 - 1 := by
  obtain ⟨k, hk⟩ := h.number
  obtain ⟨⟨j, hj⟩, hfrom, hto⟩ := place_iff.mp (Eq.refl (sp.place seq))
  exact ⟨j + k, by omega, by omega, by omega⟩

theorem Follows.same_iff (h : Follows w sp) : seq = w.highest ↔ sp.place seq = sp.top := by
  obtain ⟨k, hk, hfrom, hto⟩ := h.offset seq
  have hseq := seq.isLt
  have hhighest := w.highest.isLt
  constructor
  · rintro rfl
    omega
  · intro hsame
    apply BitVec.eq_of_toNat_eq
    omega

theorem Follows.newer_iff (h : Follows w sp) : isNewer seq w.highest = true ↔
      sp.top < sp.place seq := by
  obtain ⟨k, hk, hfrom, hto⟩ := h.offset seq
  have hseq := seq.isLt
  have hhighest := w.highest.isLt
  have hlt : seq - w.highest < 0x80000000#32 ↔ (seq - w.highest).toNat < 2 ^ 31 := BitVec.lt_def
  have hsub : (seq - w.highest).toNat = (2 ^ 32 - w.highest.toNat + seq.toNat) % 2 ^ 32 :=
    BitVec.toNat_sub _ _
  unfold isNewer
  rw [decide_eq_true_iff, ne_eq, h.same_iff, hlt, hsub]
  omega

theorem Follows.shift (h : Follows w sp) (hnewer : sp.top < sp.place seq) :
    ((seq - w.highest).toNat : ℤ) = sp.place seq - sp.top := by
  obtain ⟨k, hk, hfrom, hto⟩ := h.offset seq
  have hseq := seq.isLt
  have hhighest := w.highest.isLt
  have hsub : (seq - w.highest).toNat = (2 ^ 32 - w.highest.toNat + seq.toNat) % 2 ^ 32 :=
    BitVec.toNat_sub _ _
  omega

theorem Follows.back (h : Follows w sp) (holder : sp.place seq < sp.top) :
    ((w.highest - seq).toNat : ℤ) = sp.top - sp.place seq := by
  obtain ⟨k, hk, hfrom, hto⟩ := h.offset seq
  have hseq := seq.isLt
  have hhighest := w.highest.isLt
  have hsub : (w.highest - seq).toNat = (2 ^ 32 - seq.toNat + w.highest.toNat) % 2 ^ 32 :=
    BitVec.toNat_sub _ _
  omega

theorem Follows.check (h : Follows w sp) (seq : U32) :
    (w.check seq).verdict = (specCheck (some sp) seq).verdict ∧
      ((w.check seq).accepted = true →
        0 ≤ sp.place seq ∧ ((w.check seq).pktPos : ℤ) = sp.place seq % 2 ^ 64) := by
  have hbegun : (!w.initialized) ≠ true := by simp [h.begun]
  have hposition := h.position
  have hstart := h.start
  unfold specCheck SpecWindow.judge ReplayWindow.check
  rw [if_neg hbegun]
  dsimp only
  by_cases hsame : seq = w.highest
  · have htop := h.same_iff.mp hsame
    rw [if_pos hsame, if_neg (by omega), if_pos htop]
    exact ⟨rfl, nofun⟩
  · have hne : sp.place seq ≠ sp.top := fun htop => hsame (h.same_iff.mpr htop)
    rw [if_neg hsame]
    by_cases hnewer : isNewer seq w.highest = true
    · have habove := h.newer_iff.mp hnewer
      have hshift := h.shift habove
      rw [if_pos hnewer, if_pos habove]
      refine ⟨rfl, fun _ => ⟨by omega, ?_⟩⟩
      dsimp only [wrapPosition]
      omega
    · have hbelow : ¬sp.top < sp.place seq := fun habove => hnewer (h.newer_iff.mpr habove)
      have hback : ((w.highest - seq).toNat : ℤ) = sp.top - sp.place seq := h.back (by omega)
      rw [if_neg hnewer, if_neg hbelow, if_neg hne]
      by_cases hold : replayWindow < (w.highest - seq).toNat
      · have hfar : sp.place seq < sp.top - 64 := by
          unfold replayWindow at hold
          omega
        rw [if_pos hold, if_pos hfar]
        exact ⟨rfl, nofun⟩
      · have hnear : ¬sp.place seq < sp.top - 64 := by
          unfold replayWindow at hold
          omega
        have hpos : 0 < (w.highest - seq).toNat := by omega
        have hbit := h.bits (w.highest - seq).toNat hpos (not_lt.mp hold)
        have hplace : sp.top - ((w.highest - seq).toNat : ℤ) = sp.place seq := by omega
        rw [hplace, ← masked_ne_zero hpos (not_lt.mp hold)] at hbit
        rw [if_neg hold, if_neg hnear]
        by_cases hseen : w.seenBits &&& bitForBack (w.highest - seq) ≠ 0
        · rw [if_pos hseen, if_pos (hbit.mp hseen)]
          exact ⟨rfl, nofun⟩
        · rw [if_neg hseen, if_neg fun hmem => hseen (hbit.mpr hmem)]
          refine ⟨rfl, fun _ => ⟨by omega, ?_⟩⟩
          dsimp only [wrapPosition]
          omega

theorem accept_newer_position {w : ReplayWindow} {seq : U32} (hinit : w.initialized = true)
    (hnewer : isNewer seq w.highest = true) :
    (w.accept seq).2.position = wrapPosition (w.position + (seq - w.highest).toNat) := by
  have hne : seq ≠ w.highest := by
    rintro rfl
    simp [isNewer] at hnewer
  have hcheck : w.check seq =
      { verdict := .advance, seq := seq, distance := seq - w.highest,
        pktPos := wrapPosition (w.position + (seq - w.highest).toNat) } := by
    unfold ReplayWindow.check
    rw [if_neg (by simp [hinit]), if_neg hne, if_pos hnewer]
  unfold ReplayWindow.accept ReplayWindow.commit
  simp [hcheck, hinit, ReplayDecision.accepted]

theorem Follows.accept (h : Follows w sp) (seq : U32) :
    ∃ sp', specAccept (some sp) seq = some sp' ∧ Follows (w.accept seq).2 sp' := by
  obtain ⟨hverdict, -⟩ := h.check seq
  have haccepted : (specCheck (some sp) seq).accepted = (w.check seq).accepted := by
    unfold SpecDecision.accepted ReplayDecision.accepted
    rw [hverdict]
  have hstart := h.start
  unfold specAccept
  dsimp only
  by_cases hacc : (w.check seq).accepted = true
  · rw [if_pos (haccepted.trans hacc)]
    refine ⟨_, rfl, ?_⟩
    have hcases := accept_cases hacc
    have hposition := fun hnewer => @accept_newer_position _ seq h.begun hnewer
    generalize (w.accept seq).2 = w' at hcases hposition ⊢
    cases hcases with
    | begun hfresh => exact absurd (h.begun.symm.trans hfresh) (by decide)
    | advanced position _ hnewer =>
      have habove := h.newer_iff.mp hnewer
      have hshift := h.shift habove
      have hmax : max sp.top (sp.place seq) = sp.place seq := max_eq_right (le_of_lt habove)
      have hnew : sp.place seq ∉ sp.accepted := fun hmem => absurd (h.below _ hmem).2 (by omega)
      show Follows _ ⟨sp.first, max sp.top (sp.place seq), sp.place seq :: sp.accepted⟩
      rw [hmax]
      constructor
      case begun => rfl
      case number =>
        obtain ⟨⟨k, hk⟩, -, -⟩ := place_iff.mp (Eq.refl (sp.place seq))
        exact ⟨-k, by dsimp only; omega⟩
      case position =>
        have hpos := hposition hnewer
        have hold := h.position
        dsimp only [wrapPosition] at hpos ⊢
        omega
      case bits =>
        intro b hfrom hto
        dsimp only
        rw [advancedBits_bit (by omega) (by omega)]
        constructor
        · rintro (hlast | ⟨hle, hbit⟩)
          · have htop : sp.place seq - b = sp.top := by omega
            rw [htop]
            exact List.mem_cons_of_mem _ h.top
          · have hold := (h.bits (b - (seq - w.highest).toNat) (by omega) (by omega)).mp
              (by rw [← hbit]; congr 1; omega)
            have hplace : sp.top - ((b - (seq - w.highest).toNat : ℕ) : ℤ) =
              sp.place seq - b := by omega
            rw [hplace] at hold
            exact List.mem_cons_of_mem _ hold
        · intro hmem
          rcases List.mem_cons.mp hmem with heq | hold
          · omega
          · have hle := (h.below _ hold).2
            by_cases hlast : sp.place seq - b = sp.top
            · exact .inl (by omega)
            · right
              have hplace : sp.top - ((b - (seq - w.highest).toNat : ℕ) : ℤ) =
                sp.place seq - b := by omega
              refine ⟨by omega, ?_⟩
              rw [← hplace] at hold
              have hbit := (h.bits (b - (seq - w.highest).toNat) (by omega) (by omega)).mpr hold
              rw [← hbit]
              congr 1
              omega
      case top => exact List.mem_cons_self
      case below =>
        intro p hp
        rcases List.mem_cons.mp hp with rfl | hold
        · exact ⟨by omega, le_refl _⟩
        · exact ⟨(h.below p hold).1, (h.below p hold).2.trans (le_of_lt habove)⟩
      case start =>
        dsimp only
        omega
      case once => exact List.nodup_cons.mpr ⟨hnew, h.once⟩
    | filled _ hne hnewer hle hclear =>
      have hsame : sp.place seq ≠ sp.top := fun htop => hne (h.same_iff.mpr htop)
      have hbelow : ¬sp.top < sp.place seq := fun habove => hnewer (h.newer_iff.mpr habove)
      have hback : ((w.highest - seq).toNat : ℤ) = sp.top - sp.place seq := h.back (by omega)
      have hmax : max sp.top (sp.place seq) = sp.top := max_eq_left (not_lt.mp hbelow)
      have hpos : 0 < (w.highest - seq).toNat := by omega
      have hplace : sp.top - ((w.highest - seq).toNat : ℤ) = sp.place seq := by omega
      have hwindow : (w.highest - seq).toNat ≤ 64 := hle
      have hnew : sp.place seq ∉ sp.accepted := by
        intro hmem
        rw [← hplace] at hmem
        have hbit := (h.bits _ hpos hwindow).mpr hmem
        exact (masked_ne_zero hpos hle).mpr hbit hclear
      show Follows _ ⟨sp.first, max sp.top (sp.place seq), sp.place seq :: sp.accepted⟩
      rw [hmax]
      constructor
      case begun => exact h.begun
      case number => exact h.number
      case position => exact h.position
      case bits =>
        intro b hfrom hto
        dsimp only
        rw [BitVec.getLsbD_or, Bool.or_eq_true, h.bits b hfrom hto, getLsbD_bitForBack hpos,
          List.mem_cons,
          Bool.and_eq_true, decide_eq_true_iff, decide_eq_true_iff]
        constructor
        · rintro (hold | ⟨-, hback'⟩)
          · exact .inr hold
          · exact .inl (by omega)
        · rintro (heq | hold)
          · exact .inr ⟨by omega, by omega⟩
          · exact .inl hold
      case top => exact List.mem_cons_of_mem _ h.top
      case below =>
        intro p hp
        rcases List.mem_cons.mp hp with rfl | hold
        · exact ⟨by omega, not_lt.mp hbelow⟩
        · exact h.below p hold
      case start => exact hstart
      case once => exact List.nodup_cons.mpr ⟨hnew, h.once⟩
  · rw [if_neg fun htrue => hacc (haccepted.symm.trans htrue),
      accept_rejected (by simpa using hacc)]
    exact ⟨sp, rfl, h⟩

/-! ## Runs -/

/-- The window and the specification before the first number, and after. -/
inductive Models : ReplayWindow → Option SpecWindow → Prop where
  | fresh : Models {} none
  | running {w : ReplayWindow} {sp : SpecWindow} : Follows w sp → Models w (some sp)

theorem follows_first (seq : U32) : Follows (({} : ReplayWindow).accept seq).2 ⟨seq, 64, [64]⟩ where
  begun := (accept_highest rfl).1
  number := by
    have hfirst : (({} : ReplayWindow).accept seq).2.highest = seq := by
      simp [ReplayWindow.accept, ReplayWindow.commit, ReplayWindow.check, ReplayDecision.accepted]
    exact ⟨0, by rw [hfirst]; dsimp only; omega⟩
  position := by
    simp [ReplayWindow.accept, ReplayWindow.commit, ReplayWindow.check,
      ReplayDecision.accepted, replayWindow]
  bits := by
    intro b hfrom _
    have hzero : (({} : ReplayWindow).accept seq).2.seenBits = 0 := by
      simp [ReplayWindow.accept, ReplayWindow.commit, ReplayWindow.check, ReplayDecision.accepted]
    rw [hzero, List.mem_singleton]
    constructor
    · intro hbit
      simp at hbit
    · intro (heq : (64 : ℤ) - b = 64)
      omega
  top := List.mem_singleton.mpr rfl
  below := by
    intro p hp
    rw [List.mem_singleton.mp hp]
    exact ⟨by decide, le_refl _⟩
  start := le_refl _
  once := List.nodup_singleton _

theorem Models.check {s : Option SpecWindow} (h : Models w s) (seq : U32) :
    (w.check seq).verdict = (specCheck s seq).verdict ∧
      ((w.check seq).accepted = true →
        0 ≤ (specCheck s seq).position ∧
        ((w.check seq).pktPos : ℤ) = (specCheck s seq).position % 2 ^ 64) := by
  cases h with
  | fresh => exact ⟨rfl, fun _ => ⟨Int.natCast_nonneg 64, rfl⟩⟩
  | running hfollows => exact hfollows.check seq

theorem Models.accept {s : Option SpecWindow} (h : Models w s) (seq : U32) :
    Models (w.accept seq).2 (specAccept s seq) := by
  cases h with
  | fresh => exact .running (follows_first seq)
  | running hfollows =>
    obtain ⟨sp', hspec, hfollows'⟩ := hfollows.accept seq
    rw [hspec]
    exact .running hfollows'

def acceptAll (numbers : List U32) : ReplayWindow :=
  numbers.foldl (fun w seq => (w.accept seq).2) {}

def specAll (numbers : List U32) : Option SpecWindow := numbers.foldl specAccept none

theorem models_all (numbers : List U32) : Models (acceptAll numbers) (specAll numbers) := by
  have hfold : ∀ (rest : List U32) {w s}, Models w s →
      Models (rest.foldl (fun w seq => (w.accept seq).2) w) (rest.foldl specAccept s) := by
    intro rest
    induction rest with
    | nil => exact id
    | cons seq rest ih => exact fun h => ih (h.accept seq)
  exact hfold numbers .fresh

def acceptedPositions : ReplayWindow → List U32 → List ℕ
  | _, [] => []
  | w, seq :: rest =>
    (if (w.check seq).accepted then [(w.check seq).pktPos] else []) ++
      acceptedPositions (w.accept seq).2 rest

def specPositions : Option SpecWindow → List U32 → List ℤ
  | _, [] => []
  | s, seq :: rest =>
    (if (specCheck s seq).accepted then [(specCheck s seq).position] else []) ++
      specPositions (specAccept s seq) rest

theorem Models.accepted {s : Option SpecWindow} (h : Models w s) (seq : U32) :
    (w.check seq).accepted = (specCheck s seq).accepted := by
  unfold SpecDecision.accepted ReplayDecision.accepted
  rw [(h.check seq).1]

theorem Models.positions {s : Option SpecWindow} (h : Models w s) (rest : List U32) :
    acceptedPositions w rest = (specPositions s rest).map fun p => (p % 2 ^ 64).toNat := by
  induction rest generalizing w s with
  | nil => rfl
  | cons seq rest ih =>
    obtain ⟨-, hposition⟩ := h.check seq
    have haccepted := h.accepted seq
    unfold acceptedPositions specPositions
    rw [ih (h.accept seq), List.map_append]
    congr 1
    by_cases hacc : (w.check seq).accepted = true
    · rw [if_pos hacc, if_pos (haccepted.symm.trans hacc), List.map_singleton, ← (hposition hacc).2,
        Int.toNat_natCast]
    · rw [if_neg hacc, if_neg fun htrue => hacc (haccepted.trans htrue)]
      rfl

def acceptedOf : Option SpecWindow → List ℤ
  | none => []
  | some sp => sp.accepted

theorem acceptedOf_all (s : Option SpecWindow) (rest : List U32) :
    acceptedOf (rest.foldl specAccept s) = (specPositions s rest).reverse ++ acceptedOf s := by
  induction rest generalizing s with
  | nil => rfl
  | cons seq rest ih =>
    unfold specPositions
    rw [List.foldl_cons, ih, List.reverse_append, List.append_assoc]
    congr 1
    cases s with
    | none => rfl
    | some sp =>
      unfold specAccept
      dsimp only
      by_cases hacc : (specCheck (some sp) seq).accepted = true
      · rw [if_pos hacc, if_pos hacc]
        rfl
      · rw [if_neg hacc, if_neg hacc]
        rfl

theorem Models.once {s : Option SpecWindow} (h : Models w s) :
    (acceptedOf s).Nodup ∧ ∀ p ∈ acceptedOf s, 0 ≤ p := by
  cases h with
  | fresh => exact ⟨List.nodup_nil, nofun⟩
  | running hfollows => exact ⟨hfollows.once, fun p hp => (hfollows.below p hp).1⟩

theorem specPositions_once (numbers : List U32) :
    (specPositions none numbers).Nodup ∧ ∀ p ∈ specPositions none numbers, 0 ≤ p := by
  obtain ⟨honce, hpos⟩ := (models_all numbers).once
  have hall := acceptedOf_all none numbers
  unfold specAll at honce hpos
  rw [hall, show acceptedOf none = [] from rfl, List.append_nil] at honce hpos
  exact ⟨List.nodup_reverse.mp honce, fun p hp => hpos p (List.mem_reverse.mpr hp)⟩

/-! ## Decisions and their effect -/

theorem accept_eq (w : ReplayWindow) (seq : U32) :
    w.accept seq = (w.check seq, (w.commit (w.check seq)).1) := by
  unfold ReplayWindow.accept
  dsimp only
  by_cases hacc : (w.check seq).accepted = true
  · rw [if_pos hacc]
  · have hrefused : w.commit (w.check seq) = (w, false) := by
      unfold ReplayWindow.commit
      rw [if_pos (by simpa using hacc)]
    rw [if_neg hacc, hrefused]

theorem commit_cases (w : ReplayWindow) (d : ReplayDecision) :
    w.commit d = (w, false) ∨ (d = w.check d.seq ∧ w.commit d = ((w.accept d.seq).2, true)) := by
  by_cases hacc : d.accepted = true
  · by_cases hcurrent : w.check d.seq = d
    · right
      refine ⟨hcurrent.symm, ?_⟩
      rw [accept_eq, hcurrent]
      unfold ReplayWindow.commit
      rw [if_neg (by simpa using hacc), if_neg (not_not_intro hcurrent)]
      split_ifs
      · rfl
      · rfl
      · rfl
    · left
      unfold ReplayWindow.commit
      rw [if_neg (by simpa using hacc), if_pos hcurrent]
  · left
    unfold ReplayWindow.commit
    rw [if_pos (by simpa using hacc)]

/-- After any numbers the window decides as the specification does. -/
structure MeetsSpec (numbers : List U32) : Prop where
  /-- the position of a number is the only one congruent to it within half a turn of the highest -/
  placed : ∀ sp, specAll numbers = some sp → ∀ seq p, p = sp.place seq ↔
    (∃ k : ℤ, p = (seq.toNat : ℤ) - sp.first.toNat + 64 + 2 ^ 32 * k) ∧ sp.top - 2 ^ 31 ≤ p ∧
    p ≤ sp.top + 2 ^ 31 - 1
  verdict : ∀ seq,
    ((acceptAll numbers).check seq).verdict = (specCheck (specAll numbers) seq).verdict
  position : ∀ seq, ((acceptAll numbers).check seq).accepted = true →
    0 ≤ (specCheck (specAll numbers) seq).position ∧
      (((acceptAll numbers).check seq).pktPos : ℤ) =
        (specCheck (specAll numbers) seq).position % 2 ^ 64
  distinct : (specPositions none numbers).Nodup ∧
    acceptedPositions {} numbers = (specPositions none numbers).map fun p => (p % 2 ^ 64).toNat
  /-- while 64 bits hold the positions, those of accepted packets are pairwise distinct -/
  below : (∀ p ∈ specPositions none numbers, p < 2 ^ 64) → (acceptedPositions {} numbers).Nodup
  accept : ∀ seq, (acceptAll numbers).accept seq =
    ((acceptAll numbers).check seq, ((acceptAll numbers).commit ((acceptAll numbers).check seq)).1)
  commit : ∀ d, (acceptAll numbers).commit d = (acceptAll numbers, false) ∨
    (d = (acceptAll numbers).check d.seq ∧
      (acceptAll numbers).commit d = (((acceptAll numbers).accept d.seq).2, true))

theorem window_meets_spec (numbers : List U32) : MeetsSpec numbers := by
  have hmodels := models_all numbers
  obtain ⟨honce, hpos⟩ := specPositions_once numbers
  have hpositions := Models.fresh.positions numbers
  constructor
  case placed => exact fun _ _ _ _ => place_iff
  case verdict => exact fun seq => (hmodels.check seq).1
  case position => exact fun seq => (hmodels.check seq).2
  case distinct => exact ⟨honce, hpositions⟩
  case below =>
    intro hsmall
    rw [hpositions]
    refine honce.map_on ?_
    intro p hp q hq heq
    have hp' := hsmall p hp
    have hq' := hsmall q hq
    have hp'' := hpos p hp
    have hq'' := hpos q hq
    omega
  case accept => exact accept_eq _
  case commit => exact commit_cases _

/-! ## A position that 64 bits do not hold -/

/-- Numbers that each advance the window as far as one number can. -/
def leaps (n : ℕ) : List U32 := (List.range n).map fun k => BitVec.ofNat 32 (k * (2 ^ 31 - 1))

theorem leaps_place (n : ℕ) (accepted : List ℤ) :
    SpecWindow.place ⟨0, 64 + n * (2 ^ 31 - 1), accepted⟩
      (BitVec.ofNat 32 ((n + 1) * (2 ^ 31 - 1))) =
      64 + ((n + 1 : ℕ) : ℤ) * (2 ^ 31 - 1) := by
  apply Eq.symm
  apply place_iff.mpr
  dsimp only
  rw [BitVec.toNat_ofNat]
  refine ⟨⟨((n + 1) * (2 ^ 31 - 1) / 2 ^ 32 : ℕ), ?_⟩, by push_cast; omega, by push_cast; omega⟩
  have hdiv := Nat.mod_add_div ((n + 1) * (2 ^ 31 - 1)) (2 ^ 32)
  push_cast
  omega

theorem leaps_check (n : ℕ) (accepted : List ℤ) :
    specCheck (some ⟨0, 64 + n * (2 ^ 31 - 1), accepted⟩)
    (BitVec.ofNat 32 ((n + 1) * (2 ^ 31 - 1))) =
      ⟨.advance, 64 + ((n + 1 : ℕ) : ℤ) * (2 ^ 31 - 1)⟩ := by
  have habove : (64 : ℤ) + n * (2 ^ 31 - 1) < 64 + ((n + 1 : ℕ) : ℤ) * (2 ^ 31 - 1) := by
    push_cast
    omega
  unfold specCheck SpecWindow.judge
  dsimp only
  rw [leaps_place, if_pos habove]

theorem leaps_top (n : ℕ) :
    ∃ accepted, specAll (leaps (n + 1)) = some ⟨0, 64 + n * (2 ^ 31 - 1), accepted⟩ := by
  induction n with
  | zero => exact ⟨[64], rfl⟩
  | succ n ih =>
    obtain ⟨accepted, ih⟩ := ih
    have hrun : specAll (leaps (n + 1 + 1)) =
        specAccept (specAll (leaps (n + 1))) (BitVec.ofNat 32 ((n + 1) * (2 ^ 31 - 1))) := by
      unfold specAll leaps
      rw [List.range_succ, List.map_append, List.foldl_append]
      rfl
    have hmax : max ((64 : ℤ) + n * (2 ^ 31 - 1)) (64 + ((n + 1 : ℕ) : ℤ) * (2 ^ 31 - 1)) =
        64 + ((n + 1 : ℕ) : ℤ) * (2 ^ 31 - 1) := by
      push_cast
      omega
    rw [hrun, ih]
    unfold specAccept
    dsimp only
    rw [leaps_check]
    exact ⟨_, (if_pos rfl).trans (by rw [hmax])⟩

/-- Far enough along, an accepted packet is given a position that is not its own. -/
theorem positions_wrap : ∃ seq, ((acceptAll (leaps (2 ^ 33 + 9))).check seq).accepted = true ∧
    (((acceptAll (leaps (2 ^ 33 + 9))).check seq).pktPos : ℤ) ≠
      (specCheck (specAll (leaps (2 ^ 33 + 9))) seq).position := by
  obtain ⟨accepted, htop⟩ := leaps_top (2 ^ 33 + 8)
  have hmodels := models_all (leaps (2 ^ 33 + 9))
  have hspec : specAll (leaps (2 ^ 33 + 9)) =
    some ⟨0, 64 + ((2 ^ 33 + 8 : ℕ) : ℤ) * (2 ^ 31 - 1), accepted⟩ := htop
  have hcheck := leaps_check (2 ^ 33 + 8) accepted
  refine ⟨BitVec.ofNat 32 ((2 ^ 33 + 8 + 1) * (2 ^ 31 - 1)), ?_, ?_⟩
  · rw [hmodels.accepted, hspec, hcheck]
    rfl
  · have haccepted : ((acceptAll (leaps (2 ^ 33 + 9))).check
        (BitVec.ofNat 32 ((2 ^ 33 + 8 + 1) * (2 ^ 31 - 1)))).accepted = true := by
      rw [hmodels.accepted, hspec, hcheck]
      rfl
    have hposition := ((hmodels.check _).2 haccepted).2
    rw [hposition, hspec, hcheck]
    norm_num

end Sangtachi.Replay
