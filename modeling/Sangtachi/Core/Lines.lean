import Mathlib.Data.List.Infix

/-! # Texts cut at a separator

The first place of a separator, and the pieces between the separators. A place found in the front of
a text stays the first one however the text goes on. -/
namespace Sangtachi.Lines

variable {α : Type*}

/-- Where `sep` stands first. -/
def find [DecidableEq α] (sep : List α) : List α → Option ℕ
  | [] => if sep = [] then some 0 else none
  | x :: rest => if sep <+: x :: rest then some 0 else (find sep rest).map (· + 1)

/-- `sep` stands at `i`, and nowhere before. -/
structure FirstAt (sep xs : List α) (i : ℕ) : Prop where
  here : sep <+: xs.drop i
  before : ∀ j < i, ¬ sep <+: xs.drop j
  within : i ≤ xs.length

variable {sep xs ys : List α} {i j n : ℕ}

theorem FirstAt.unique (h : FirstAt sep xs i) (k : FirstAt sep xs j) : i = j := by
  by_contra hne
  rcases Nat.lt_or_gt_of_ne hne with hlt | hlt
  · exact k.before i hlt h.here
  · exact h.before j hlt k.here

theorem FirstAt.length_le (h : FirstAt sep xs i) : i + sep.length ≤ xs.length := by
  have hlength := h.here.length_le
  rw [List.length_drop] at hlength
  have hwithin := h.within
  omega

theorem FirstAt.append (h : FirstAt sep xs i) (ys : List α) : FirstAt sep (xs ++ ys) i := by
  have hlength := h.length_le
  refine ⟨?_, fun j hj hpre => ?_, ?_⟩
  · rw [List.drop_append_of_le_length h.within]
    exact h.here.trans (List.prefix_append _ _)
  · rw [List.drop_append_of_le_length (by omega)] at hpre
    have hfits : sep.length ≤ (xs.drop j).length := by
      rw [List.length_drop]
      omega
    exact h.before j hj (List.prefix_of_prefix_length_le hpre (List.prefix_append _ _) hfits)
  · rw [List.length_append]
    have hwithin := h.within
    omega

theorem FirstAt.take (h : FirstAt sep xs i) (hn : i + sep.length ≤ n) :
    FirstAt sep (xs.take n) i := by
  have hlength := h.length_le
  refine ⟨?_, fun j hj hpre => ?_, ?_⟩
  · rw [List.drop_take]
    exact List.prefix_take_iff.mpr ⟨h.here, by omega⟩
  · rw [List.drop_take] at hpre
    exact h.before j hj (hpre.trans (List.take_prefix _ _))
  · rw [List.length_take]
    omega

variable [DecidableEq α]

theorem find_firstAt (h : find sep xs = some i) : FirstAt sep xs i := by
  induction xs generalizing i with
  | nil =>
    unfold find at h
    by_cases hempty : sep = []
    · rw [if_pos hempty] at h
      cases h
      exact ⟨by simp [hempty], by omega, le_refl 0⟩
    · rw [if_neg hempty] at h
      cases h
  | cons x rest ih =>
    unfold find at h
    by_cases hhere : sep <+: x :: rest
    · rw [if_pos hhere] at h
      cases h
      exact ⟨hhere, by omega, Nat.zero_le _⟩
    · rw [if_neg hhere] at h
      obtain ⟨k, hk, rfl⟩ := Option.map_eq_some_iff.mp h
      have hrest := ih hk
      refine ⟨hrest.here, fun j hj => ?_, Nat.succ_le_succ hrest.within⟩
      cases j with
      | zero => exact hhere
      | succ j => exact hrest.before j (by omega)

theorem FirstAt.find_eq (h : FirstAt sep xs i) : find sep xs = some i := by
  induction xs generalizing i with
  | nil =>
    have hzero : i = 0 := Nat.le_zero.mp h.within
    subst hzero
    unfold find
    exact if_pos (List.prefix_nil.mp h.here)
  | cons x rest ih =>
    unfold find
    cases i with
    | zero => exact if_pos h.here
    | succ i =>
      have hnot : ¬ sep <+: x :: rest := h.before 0 (by omega)
      rw [if_neg hnot]
      have hrest : FirstAt sep rest i :=
        ⟨h.here, fun j hj => h.before (j + 1) (by omega), Nat.le_of_succ_le_succ h.within⟩
      rw [ih hrest]
      rfl

theorem find_eq_none_iff : find sep xs = none ↔ ¬ sep <:+: xs := by
  induction xs with
  | nil =>
    unfold find
    by_cases hempty : sep = []
    · simp [hempty]
    · rw [if_neg hempty, List.infix_nil]
      exact ⟨fun _ => hempty, fun _ => rfl⟩
  | cons x rest ih =>
    unfold find
    rw [List.infix_cons_iff, not_or]
    by_cases hhere : sep <+: x :: rest
    · rw [if_pos hhere]
      simp [hhere]
    · rw [if_neg hhere, Option.map_eq_none_iff, ih]
      simp [hhere]

/-- A single symbol is first seen behind those that differ from it. -/
theorem find_singleton (x : α) (xs : List α) :
    find [x] xs = if x ∈ xs then some (xs.takeWhile (· ≠ x)).length else none := by
  induction xs with
  | nil => rfl
  | cons y rest ih =>
    have hhead : [x] <+: y :: rest ↔ x = y := by simp [List.cons_prefix_cons]
    unfold find
    rw [ih]
    by_cases hxy : x = y
    · rw [if_pos (hhead.mpr hxy)]
      simp [hxy]
    · rw [if_neg (mt hhead.mp hxy)]
      have hyx : y ≠ x := Ne.symm hxy
      by_cases hmem : x ∈ rest
      · simp [hxy, hyx, hmem]
      · simp [hxy, hmem]

theorem find_length_le (h : find sep xs = some i) : i + sep.length ≤ xs.length :=
  (find_firstAt h).length_le

theorem find_append (h : find sep xs = some i) (ys : List α) : find sep (xs ++ ys) = some i :=
  ((find_firstAt h).append ys).find_eq

/-- In the first `n` symbols `sep` is found where it stands first, if it ends there. -/
theorem find_take_eq_some_iff :
    find sep (xs.take n) = some i ↔ find sep xs = some i ∧ i + sep.length ≤ n := by
  constructor
  · intro h
    have hlength := find_length_le h
    rw [List.length_take] at hlength
    have happend := find_append h (xs.drop n)
    rw [List.take_append_drop] at happend
    exact ⟨happend, by omega⟩
  · intro ⟨h, hn⟩
    exact ((find_firstAt h).take hn).find_eq

/-! ## Pieces -/

/-- The pieces between the separators, cut for at most the given number of rounds. -/
def splitFor (sep : List α) : ℕ → List α → List (List α)
  | 0, xs => [xs]
  | rounds + 1, xs =>
    match find sep xs with
    | none => [xs]
    | some i => xs.take i :: splitFor sep rounds (xs.drop (i + sep.length))

/-- All pieces: there are fewer separators than symbols. -/
def split (sep xs : List α) : List (List α) := splitFor sep xs.length xs

theorem splitFor_ne_nil (rounds : ℕ) (xs : List α) : splitFor sep rounds xs ≠ [] := by
  cases rounds with
  | zero => exact List.cons_ne_nil _ _
  | succ rounds =>
    unfold splitFor
    cases find sep xs with
    | none => exact List.cons_ne_nil _ _
    | some i => exact List.cons_ne_nil _ _

omit [DecidableEq α] in
theorem FirstAt.eq_append (h : FirstAt sep xs i) :
    xs = xs.take i ++ sep ++ xs.drop (i + sep.length) := by
  obtain ⟨rest, hrest⟩ := h.here
  have hdrop : xs.drop (i + sep.length) = rest := by
    rw [← List.drop_drop, ← hrest, List.drop_left]
  rw [hdrop, List.append_assoc, hrest, List.take_append_drop]

theorem splitFor_intercalate (rounds : ℕ) (xs : List α) :
    sep.intercalate (splitFor sep rounds xs) = xs := by
  induction rounds generalizing xs with
  | zero => exact List.intercalate_singleton
  | succ rounds ih =>
    unfold splitFor
    cases hfind : find sep xs with
    | none => exact List.intercalate_singleton
    | some i =>
      dsimp only
      rw [List.intercalate_cons_of_ne_nil (splitFor_ne_nil rounds _), ih,
        ← (find_firstAt hfind).eq_append]

theorem split_intercalate (xs : List α) : sep.intercalate (split sep xs) = xs :=
  splitFor_intercalate xs.length xs

omit [DecidableEq α] in
theorem FirstAt.take_within (h : FirstAt sep xs i) (hsep : sep ≠ []) : ¬ sep <:+: xs.take i := by
  intro hin
  obtain ⟨front, back, hparts⟩ := hin
  have hpositive := List.length_pos_iff.mpr hsep
  have hlength := congrArg List.length hparts
  rw [List.length_append, List.length_append, List.length_take] at hlength
  apply h.before front.length (by omega)
  have hxs : xs = front ++ (sep ++ (back ++ xs.drop i)) := by
    rw [← List.append_assoc, ← List.append_assoc, hparts, List.take_append_drop]
  rw [hxs, List.drop_left]
  exact List.prefix_append _ _

theorem splitFor_within (hsep : sep ≠ []) (rounds : ℕ) (xs : List α) (h : xs.length ≤ rounds) :
    ∀ piece ∈ splitFor sep rounds xs, ¬ sep <:+: piece := by
  induction rounds generalizing xs with
  | zero =>
    intro piece hpiece hin
    rw [List.mem_singleton.mp hpiece, List.length_eq_zero_iff.mp (Nat.le_zero.mp h),
      List.infix_nil] at hin
    exact hsep hin
  | succ rounds ih =>
    intro piece hpiece
    unfold splitFor at hpiece
    cases hfind : find sep xs with
    | none =>
      rw [hfind] at hpiece
      rw [List.mem_singleton.mp hpiece]
      exact find_eq_none_iff.mp hfind
    | some i =>
      rw [hfind] at hpiece
      rcases List.mem_cons.mp hpiece with rfl | hrest
      · exact (find_firstAt hfind).take_within hsep
      · apply ih _ _ piece hrest
        have hpositive := List.length_pos_iff.mpr hsep
        rw [List.length_drop]
        omega

theorem split_within (hsep : sep ≠ []) (xs : List α) : ∀ piece ∈ split sep xs, ¬ sep <:+: piece :=
  splitFor_within hsep xs.length xs (le_refl _)

omit [DecidableEq α] in
theorem intercalate_append (piece : List α) (pieces : List (List α)) :
    sep.intercalate (piece :: pieces) ++ sep = (piece :: pieces).flatMap (· ++ sep) := by
  induction pieces generalizing piece with
  | nil => simp
  | cons next pieces ih =>
    rw [List.intercalate_cons_cons, List.flatMap_cons, ← ih next]
    simp

/-! ## Separators of two different symbols -/

variable {a b : α}

omit [DecidableEq α] in
theorem firstAt_piece (hab : a ≠ b) {piece : List α} (h : ¬ [a, b] <:+: piece) (rest : List α) :
    FirstAt [a, b] (piece ++ [a, b] ++ rest) piece.length := by
  refine ⟨?_, fun j hj hpre => ?_, ?_⟩
  · rw [List.append_assoc, List.drop_left]
    exact List.prefix_append _ _
  · rw [List.append_assoc, List.drop_append_of_le_length (by omega)] at hpre
    by_cases hinside : j + 2 ≤ piece.length
    · have hfits : [a, b].length ≤ (piece.drop j).length := by
        rw [List.length_drop, List.length_cons, List.length_singleton]
        omega
      have hin : [a, b] <+: piece.drop j :=
        List.prefix_of_prefix_length_le hpre (List.prefix_append _ _) hfits
      exact h (hin.isInfix.trans (List.drop_suffix j piece).isInfix)
    · -- the last symbol of the piece, and the first one of the separator
      have hlast : (piece.drop j).length = 1 := by
        rw [List.length_drop]
        omega
      obtain ⟨x, hx⟩ := List.length_eq_one_iff.mp hlast
      rw [hx, List.singleton_append, List.cons_append, List.cons_prefix_cons,
        List.cons_prefix_cons] at hpre
      exact hab hpre.2.1.symm
  · rw [List.length_append, List.length_append]
    omega

theorem splitFor_pieces (hab : a ≠ b) (pieces : List (List α)) (hne : pieces ≠ [])
    (hclean : ∀ piece ∈ pieces, ¬ [a, b] <:+: piece) (rounds : ℕ)
    (h : ([a, b].intercalate pieces).length ≤ rounds) :
    splitFor [a, b] rounds ([a, b].intercalate pieces) = pieces := by
  induction pieces generalizing rounds with
  | nil => exact absurd rfl hne
  | cons piece pieces ih =>
    have hpiece := hclean piece List.mem_cons_self
    by_cases hlast : pieces = []
    · subst hlast
      rw [List.intercalate_singleton] at h ⊢
      cases rounds with
      | zero => rfl
      | succ rounds =>
        unfold splitFor
        rw [find_eq_none_iff.mpr hpiece]
    · rw [List.intercalate_cons_of_ne_nil hlast] at h ⊢
      rw [List.length_append, List.length_append, List.length_cons, List.length_singleton] at h
      cases rounds with
      | zero => omega
      | succ rounds =>
        have hfirst := firstAt_piece hab hpiece ([a, b].intercalate pieces)
        unfold splitFor
        rw [hfirst.find_eq]
        dsimp only
        have hrest :
          (piece ++ [a, b] ++ [a, b].intercalate pieces).drop (piece.length + [a, b].length) =
            [a, b].intercalate pieces := by
          rw [← List.length_append, List.drop_left]
        rw [hrest, ih hlast (fun p hp => hclean p (List.mem_cons_of_mem _ hp)) rounds (by omega),
          List.append_assoc, List.take_left]

theorem split_pieces (hab : a ≠ b) {pieces : List (List α)} (hne : pieces ≠ [])
    (hclean : ∀ piece ∈ pieces, ¬ [a, b] <:+: piece) :
    split [a, b] ([a, b].intercalate pieces) = pieces :=
  splitFor_pieces hab pieces hne hclean _ (le_refl _)

omit [DecidableEq α] in
theorem not_prefix_of_clean (hab : a ≠ b) {piece : List α} (h : ¬ [a, b] <:+: piece)
    (hne : piece ≠ []) (rest : List α) :
    ¬ [a, b] <+: piece ++ [a, b] ++ rest :=
  (firstAt_piece hab h rest).before 0 (List.length_pos_iff.mpr hne)

omit [DecidableEq α] in
/-- Two separators in a row stand first behind the last piece, if no piece but the first is empty.
-/
theorem firstAt_pieces (hab : a ≠ b) {piece : List α} {pieces : List (List α)}
    (hpiece : ¬ [a, b] <:+: piece) (hpieces : ∀ p ∈ pieces, p ≠ [] ∧ ¬ [a, b] <:+: p)
    (rest : List α) :
    FirstAt [a, b, a, b] ([a, b].intercalate (piece :: pieces) ++ [a, b, a, b] ++ rest)
      ([a, b].intercalate (piece :: pieces)).length := by
  induction pieces generalizing piece with
  | nil =>
    rw [List.intercalate_singleton]
    refine ⟨?_, fun j hj hpre => ?_, ?_⟩
    · rw [List.append_assoc, List.drop_left]
      exact List.prefix_append _ _
    · have hfirst := firstAt_piece hab hpiece ([a, b] ++ rest)
      have htext : piece ++ [a, b, a, b] ++ rest = piece ++ [a, b] ++ ([a, b] ++ rest) := by simp
      rw [htext] at hpre
      exact hfirst.before j hj (List.IsPrefix.trans ⟨[a, b], rfl⟩ hpre)
    · rw [List.length_append, List.length_append]
      omega
  | cons next pieces ih =>
    obtain ⟨⟨hnonempty, hnext⟩, hmore⟩ := List.forall_mem_cons.mp hpieces
    have htail := ih hnext hmore
    generalize hjoin : [a, b].intercalate (next :: pieces) = joined at htail
    have htext : [a, b].intercalate (piece :: next :: pieces) = piece ++ [a, b] ++ joined := by
      rw [List.intercalate_cons_cons, hjoin]
    have hfirst := firstAt_piece hab hpiece (joined ++ [a, b, a, b] ++ rest)
    have hwhole : piece ++ [a, b] ++ joined ++ [a, b, a, b] ++ rest =
        piece ++ [a, b] ++ (joined ++ [a, b, a, b] ++ rest) := by simp
    -- what follows the first separator is not another one
    have hstart : ¬ [a, b] <+: joined ++ [a, b, a, b] ++ rest := by
      cases pieces with
      | nil =>
        rw [List.intercalate_singleton] at hjoin
        have h := not_prefix_of_clean hab hnext hnonempty ([a, b] ++ rest)
        rw [← hjoin]
        simpa using h
      | cons p pieces =>
        rw [List.intercalate_cons_cons] at hjoin
        have h := not_prefix_of_clean hab hnext hnonempty
          ([a, b].intercalate (p :: pieces) ++ [a, b, a, b] ++ rest)
        rw [← hjoin]
        simpa using h
    rw [htext, hwhole]
    refine ⟨?_, fun j hj hpre => ?_, ?_⟩
    · rw [← List.append_assoc, ← List.append_assoc, List.append_assoc (piece ++ [a, b] ++ joined),
        List.drop_left]
      exact List.prefix_append _ _
    · have hsep : [a, b] <+: (piece ++ [a, b] ++ (joined ++ [a, b, a, b] ++ rest)).drop j :=
        List.IsPrefix.trans ⟨[a, b], rfl⟩ hpre
      rcases Nat.lt_trichotomy j piece.length with hlt | heq | hgt
      · exact hfirst.before j hlt hsep
      · subst heq
        rw [List.append_assoc, List.drop_left, List.cons_append, List.cons_append, List.nil_append,
          List.cons_prefix_cons, List.cons_prefix_cons] at hpre
        exact hstart hpre.2.2
      · by_cases hnear : j = piece.length + 1
        · subst hnear
          rw [List.append_assoc, List.drop_append, List.drop_eq_nil_of_le (by omega),
            List.nil_append, show piece.length + 1 - piece.length = 1 by omega, List.cons_append,
            List.drop_succ_cons, List.drop_zero, List.cons_append, List.cons_prefix_cons] at hpre
          exact hab hpre.1
        · have hpast : (piece ++ [a, b] ++ (joined ++ [a, b, a, b] ++ rest)).drop j =
              (joined ++ [a, b, a, b] ++ rest).drop (j - (piece.length + 2)) := by
            rw [List.drop_append, List.drop_eq_nil_of_le (by simp; omega), List.nil_append]
            simp
          rw [hpast] at hpre
          have hlength : (piece ++ [a, b] ++ joined).length = piece.length + 2 + joined.length := by
            simp only [List.length_append, List.length_cons, List.length_nil]
          exact htail.before _ (by omega) hpre
    · simp only [List.length_append, List.length_cons, List.length_nil]
      omega

end Sangtachi.Lines
