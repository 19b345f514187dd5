import Mathlib.Data.List.Nodup

/-! # First occurrences

Of several elements with one key the first is kept. -/
namespace Sangtachi.FirstOccurrences

variable {α β : Type*} [DecidableEq β] (f : α → β)

/-- The elements whose key has not come before. -/
def firsts : List α → List α
  | [] => []
  | x :: rest => x :: (firsts rest).filter (f · ≠ f x)

/-- One step of a loop that collects them. -/
def keepNew (out : List α) (x : α) : List α := if out.any (f · = f x) then out else out ++ [x]

variable {f} {xs ys out : List α} {x : α}

theorem firsts_sublist (xs : List α) : (firsts f xs).Sublist xs := by
  induction xs with
  | nil => exact .slnil
  | cons x xs ih => exact .cons_cons x (List.filter_sublist.trans ih)

theorem firsts_nodup (xs : List α) : ((firsts f xs).map f).Nodup := by
  induction xs with
  | nil => exact List.nodup_nil
  | cons x xs ih =>
    rw [firsts, List.map_cons, List.nodup_cons]
    constructor
    · intro hin
      obtain ⟨y, hy, heq⟩ := List.mem_map.mp hin
      exact of_decide_eq_true (List.mem_filter.mp hy).2 heq
    · exact ih.sublist (List.filter_sublist.map f)

theorem firsts_of_nodup (h : (xs.map f).Nodup) : firsts f xs = xs := by
  induction xs with
  | nil => rfl
  | cons x xs ih =>
    rw [List.map_cons, List.nodup_cons] at h
    rw [firsts, ih h.2, List.filter_eq_self.mpr]
    intro y hy
    exact decide_eq_true (fun heq => h.1 (heq ▸ List.mem_map_of_mem hy))

theorem firsts_ne_nil (h : xs ≠ []) : firsts f xs ≠ [] := by
  cases xs with
  | nil => exact absurd rfl h
  | cons x xs => exact List.cons_ne_nil _ _

theorem foldl_keepNew_append (xs out : List α) :
    xs.foldl (keepNew f) out = out ++ (firsts f xs).filter fun x => out.all (f · ≠ f x) := by
  induction xs generalizing out with
  | nil => simp [firsts]
  | cons x xs ih =>
    rw [List.foldl_cons, ih]
    unfold keepNew
    by_cases hseen : out.any (f · = f x) = true
    · rw [if_pos hseen, firsts, List.filter_cons_of_neg, List.filter_filter]
      · congr 1
        apply List.filter_congr
        intro y _
        obtain ⟨z, hz, heq⟩ := List.any_eq_true.mp hseen
        by_cases hy : f y = f x
        · have hnot : (out.all (f · ≠ f y)) = false := by
            rw [List.all_eq_false]
            exact ⟨z, hz, by simp [hy, of_decide_eq_true heq]⟩
          rw [hnot]
          rfl
        · simp [hy]
      · obtain ⟨z, hz, heq⟩ := List.any_eq_true.mp hseen
        intro hall
        exact of_decide_eq_true (List.all_eq_true.mp hall z hz) (of_decide_eq_true heq)
    · have hnew : (out.all (f · ≠ f x)) = true := by
        rw [List.all_eq_true]
        intro z hz
        exact decide_eq_true (fun heq => hseen (List.any_eq_true.mpr ⟨z, hz, decide_eq_true heq⟩))
      rw [if_neg hseen, firsts, List.filter_cons, if_pos hnew, List.append_assoc,
        List.singleton_append,
        List.filter_filter]
      congr 2
      apply List.filter_congr
      intro y _
      simp [Bool.and_comm, eq_comm]

theorem foldl_keepNew (xs : List α) : xs.foldl (keepNew f) [] = firsts f xs := by
  rw [foldl_keepNew_append]
  simp

end Sangtachi.FirstOccurrences
