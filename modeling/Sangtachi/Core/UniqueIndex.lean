import Mathlib.Data.List.AList
import Mathlib.Logic.Function.Basic

/-! # Unique indexes

Records under keys, and an index that maps a value computed from a record back to its key.
The index is exact when each record has its own entry and each entry has its record; it is then
injective on records. Writes keep it exact when a record and its entry are put together, on
keys that are free, and dropped together. -/
namespace Sangtachi.UniqueIndex

variable {κ ι ρ : Type} [DecidableEq κ] [DecidableEq ι]

def Exact (records : κ → Option ρ) (index : ι → Option κ) (entry : κ → ρ → ι) : Prop :=
  ∀ i k, index i = some k ↔ ∃ r, records k = some r ∧ entry k r = i

variable {records : κ → Option ρ} {index : ι → Option κ} {entry : κ → ρ → ι} {k k' : κ}
  {r r' : ρ} {i : ι}

omit [DecidableEq κ] [DecidableEq ι] in
theorem Exact.entry_of_record (h : Exact records index entry) (hr : records k = some r) :
    index (entry k r) = some k := (h _ _).mpr ⟨r, hr, rfl⟩

omit [DecidableEq κ] [DecidableEq ι] in
theorem Exact.injective (h : Exact records index entry) (hr : records k = some r)
    (hr' : records k' = some r') (he : entry k r = entry k' r') : k = k' := by
  have hk := h.entry_of_record hr
  rw [he, h.entry_of_record hr'] at hk
  exact (Option.some.inj hk).symm

theorem Exact.put (h : Exact records index entry) (hk : records k = none)
    (hi : index (entry k r) = none) :
    Exact (Function.update records k (some r))
    (Function.update index (entry k r) (some k)) entry := by
  intro i k₁
  by_cases hi₁ : i = entry k r
  · subst hi₁
    rw [Function.update_self]
    constructor
    · intro heq
      obtain rfl : k = k₁ := Option.some.inj heq
      exact ⟨r, Function.update_self .., rfl⟩
    · rintro ⟨r₁, hr₁, he⟩
      by_cases hk₁ : k₁ = k
      · rw [hk₁]
      · rw [Function.update_of_ne hk₁] at hr₁
        rw [← he, h.entry_of_record hr₁] at hi
        cases hi
  · rw [Function.update_of_ne hi₁, h i k₁]
    by_cases hk₁ : k₁ = k
    · subst hk₁
      simp [hk, Ne.symm hi₁]
    · rw [Function.update_of_ne hk₁]

theorem Exact.drop (h : Exact records index entry) (hr : records k = some r) :
    Exact (Function.update records k none) (Function.update index (entry k r) none) entry := by
  intro i k₁
  by_cases hk₁ : k₁ = k
  · subst hk₁
    by_cases hi₁ : i = entry k₁ r
    · simp [hi₁]
    · simp [Function.update_of_ne hi₁, h i k₁, hr, Ne.symm hi₁]
  · rw [Function.update_of_ne hk₁]
    by_cases hi₁ : i = entry k r
    · subst hi₁
      constructor
      · simp
      · rintro ⟨r₁, hr₁, he⟩
        exact absurd (h.injective hr₁ hr he) hk₁
    · rw [Function.update_of_ne hi₁, h i k₁]

omit [DecidableEq κ] [DecidableEq ι] in
theorem Exact.congr {records' : κ → Option ρ} (h : Exact records index entry)
    (hrel : ∀ k, Option.Rel (fun r r' => entry k r' = entry k r) (records k) (records' k)) :
    Exact records' index entry := by
  intro i k
  rw [h i k]
  have hk := hrel k
  constructor
  · rintro ⟨r, hr, rfl⟩
    rw [hr] at hk
    cases hk' : records' k with
    | none => rw [hk'] at hk; cases hk
    | some r' =>
      rw [hk'] at hk
      cases hk with
      | some he => exact ⟨r', rfl, he⟩
  · rintro ⟨r', hr', rfl⟩
    rw [hr'] at hk
    cases hk' : records k with
    | none => rw [hk'] at hk; cases hk
    | some r =>
      rw [hk'] at hk
      cases hk with
      | some he => exact ⟨r, rfl, he.symm⟩

/-! ## Association lists as functions -/

theorem lookup_insert {α β : Type} [DecidableEq α] (a : α) (b : β) (m : AList fun _ : α => β) :
    (fun x => (m.insert a b).lookup x) = Function.update (fun x => m.lookup x) a (some b) := by
  funext x
  by_cases hx : x = a
  · subst hx
    simp
  · simp [Function.update_of_ne hx, AList.lookup_insert_ne hx]

theorem lookup_erase {α β : Type} [DecidableEq α] (a : α) (m : AList fun _ : α => β) :
    (fun x => (m.erase a).lookup x) = Function.update (fun x => m.lookup x) a none := by
  funext x
  by_cases hx : x = a
  · subst hx
    simp
  · simp [Function.update_of_ne hx, AList.lookup_erase_ne hx]

/-- Rewriting a value in place, seen through a function that does not tell the difference. -/
theorem map_lookup_rewrite {α β γ : Type} [DecidableEq α] {a : α} {b c : β}
    {m : AList fun _ : α => β} (f : β → γ) (h : m.lookup a = some c) (hf : f b = f c) (x : α) :
    ((m.insert a b).lookup x).map f = (m.lookup x).map f := by
  by_cases hx : x = a
  · subst hx
    simp [h, hf]
  · rw [AList.lookup_insert_ne hx]

theorem rel_lookup_rewrite {α β : Type} [DecidableEq α] {a : α} {b c : β} {m : AList fun _ : α => β}
    {R : β → β → Prop} (hrefl : ∀ b, R b b) (h : m.lookup a = some c) (hR : R c b) (x : α) :
    Option.Rel R (m.lookup x) ((m.insert a b).lookup x) := by
  by_cases hx : x = a
  · subst hx
    rw [h, AList.lookup_insert]
    exact .some hR
  · rw [AList.lookup_insert_ne hx]
    cases m.lookup x with
    | none => exact .none
    | some y => exact .some (hrefl y)

end Sangtachi.UniqueIndex
