import Mathlib.Data.List.Basic

/-! # Codes that no code word extends

When the front of a text tells which word it starts with, a text is a sequence of words in at most
one way. -/
namespace Sangtachi.PrefixCode

variable {α β : Type*}

/-- The words of the symbols in `P` are not empty, and none goes on where another one ends. -/
structure Prefixed (P : α → Prop) (code : α → List β) : Prop where
  nonempty : ∀ a, P a → code a ≠ []
  front : ∀ a b rest rest', P a → P b → code a ++ rest = code b ++ rest' → a = b

variable {P : α → Prop} {code : α → List β}

theorem Prefixed.rest_eq (h : Prefixed P code) {a b : α} {rest rest' : List β} (ha : P a) (hb : P b)
    (heq : code a ++ rest = code b ++ rest') : a = b ∧ rest = rest' := by
  have hab := h.front a b rest rest' ha hb heq
  subst hab
  exact ⟨rfl, List.append_cancel_left heq⟩

theorem Prefixed.unique (h : Prefixed P code) {xs ys : List α} (hx : ∀ x ∈ xs, P x)
    (hy : ∀ y ∈ ys, P y) (heq : xs.flatMap code = ys.flatMap code) : xs = ys := by
  induction xs generalizing ys with
  | nil =>
    cases ys with
    | nil => rfl
    | cons y ys =>
      have hempty : code y = [] := by
        rw [List.flatMap_nil, List.flatMap_cons] at heq
        exact (List.append_eq_nil_iff.mp heq.symm).1
      exact absurd hempty (h.nonempty y (hy y List.mem_cons_self))
  | cons x xs ih =>
    cases ys with
    | nil =>
      have hempty : code x = [] := by
        rw [List.flatMap_nil, List.flatMap_cons] at heq
        exact (List.append_eq_nil_iff.mp heq).1
      exact absurd hempty (h.nonempty x (hx x List.mem_cons_self))
    | cons y ys =>
      rw [List.flatMap_cons, List.flatMap_cons] at heq
      obtain ⟨rfl, hrest⟩ := h.rest_eq (hx x List.mem_cons_self) (hy y List.mem_cons_self) heq
      rw [ih (fun z hz => hx z (List.mem_cons_of_mem _ hz))
        (fun z hz => hy z (List.mem_cons_of_mem _ hz)) hrest]

end Sangtachi.PrefixCode
