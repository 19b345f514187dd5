import Mathlib.Data.List.AList
import Mathlib.Order.Nat

/-! # Tables whose entries are refilled when they are looked at

A refill may drop an entry, and a key without one counts as a key that was never used. What a table
stands for, key by key, is left to a relation that refills respect: then no look at the table and no
sweep of it shows, and a spend shows at its own key only. -/
namespace Sangtachi.LazyTable

variable {α E : Type} [DecidableEq α]

abbrev Entries (α E : Type) := AList fun _ : α => E

def size (t : Entries α E) : ℕ := t.keys.length

/-- The entry of a key after its refill, which is also written back. -/
def refill (refilled : E → Option E) (t : Entries α E) (key : α) : Entries α E × Option E :=
  match t.lookup key with
  | none => (t, none)
  | some e =>
    match refilled e with
    | none => (t.erase key, none)
    | some e' => (t.insert key e', some e')

def sweep (refilled : E → Option E) (t : Entries α E) : Entries α E :=
  t.keys.foldl (fun t key => (refill refilled t key).1) t

/-- A new entry for a key, from the refilled one if it has one. A key without one needs a free
place, perhaps one that a sweep has made; `false` says there was none. -/
def spend (refilled : E → Option E) (cap : ℕ) (spent : Option E → E) (t : Entries α E) (key : α) :
    Entries α E × Bool :=
  match refill refilled t key with
  | (t, some e) => (t.insert key (spent (some e)), true)
  | (t, none) =>
    let t := if cap ≤ size t then sweep refilled t else t
    if cap ≤ size t then (t, false) else (t.insert key (spent none), true)

/-- What is asked of a refill: an entry that is kept stays so, and stands for what it stood for. -/
structure Lawful (refilled : E → Option E) (Kept : E → Prop)
    (Same : Option E → Option E → Prop) : Prop where
  refl : ∀ o, Same o o
  trans : ∀ {a b c}, Same a b → Same b c → Same a c
  kept : ∀ {e e'}, Kept e → refilled e = some e' → Kept e'
  same : ∀ {e}, Kept e → Same (refilled e) (some e)

structure Sound (Kept : E → Prop) (cap : ℕ) (t : Entries α E) : Prop where
  kept : ∀ key e, t.lookup key = some e → Kept e
  bounded : size t ≤ cap

structure Upkeep (Kept : E → Prop) (cap : ℕ) (Same : Option E → Option E → Prop)
    (t t' : Entries α E) : Prop where
  sound : Sound Kept cap t'
  same : ∀ key, Same (t'.lookup key) (t.lookup key)
  size : size t' ≤ size t

variable {refilled : E → Option E} {Kept : E → Prop} {Same : Option E → Option E → Prop} {cap : ℕ}
  {spent : Option E → E} {t t' t'' : Entries α E} {key : α} {e : E}

theorem Sound.imp {Kept' : E → Prop} (h : Sound Kept cap t) (himp : ∀ e, Kept e → Kept' e) :
    Sound Kept' cap t :=
  ⟨fun key e he => himp e (h.kept key e he), h.bounded⟩

theorem mem_keys_of_lookup (h : t.lookup key = some e) : key ∈ t.keys := by
  rw [← AList.mem_keys, ← AList.lookup_isSome, h]
  rfl

theorem size_insert_of_mem (h : t.lookup key = some e) (e' : E) :
    size (t.insert key e') = size t := by
  have hmem := mem_keys_of_lookup h
  have hpos := List.length_pos_of_mem hmem
  rw [size, AList.keys_insert, List.length_cons, List.length_erase_of_mem hmem, size]
  omega

theorem size_insert_le (t : Entries α E) (key : α) (e : E) :
    size (t.insert key e) ≤ size t + 1 := by
  rw [size, AList.keys_insert, List.length_cons, size]
  exact Nat.succ_le_succ (List.length_erase_le ..)

theorem size_erase_le (t : Entries α E) (key : α) : size (t.erase key) ≤ size t := by
  rw [size, AList.keys_erase, size]
  exact List.length_erase_le ..

theorem size_erase_lt (h : t.lookup key = some e) : size (t.erase key) < size t := by
  have hmem := mem_keys_of_lookup h
  have hpos := List.length_pos_of_mem hmem
  rw [size, AList.keys_erase, List.length_erase_of_mem hmem, size]
  omega

theorem Sound.insert (h : Sound Kept cap t) (he : Kept e) (hsize : size (t.insert key e) ≤ cap) :
    Sound Kept cap (t.insert key e) := by
  refine ⟨fun a e' ha => ?_, hsize⟩
  by_cases hkey : a = key
  · subst hkey
    rw [AList.lookup_insert] at ha
    obtain rfl := Option.some.inj ha
    exact he
  · rw [AList.lookup_insert_ne hkey] at ha
    exact h.kept a e' ha

theorem Sound.erase (h : Sound Kept cap t) : Sound Kept cap (t.erase key) := by
  refine ⟨fun a e' ha => ?_, (size_erase_le t key).trans h.bounded⟩
  by_cases hkey : a = key
  · subst hkey
    simp at ha
  · rw [AList.lookup_erase_ne hkey] at ha
    exact h.kept a e' ha

theorem Upkeep.refl (hlaw : Lawful refilled Kept Same) (h : Sound Kept cap t) :
    Upkeep Kept cap Same t t :=
  ⟨h, fun _ => hlaw.refl _, le_rfl⟩

theorem Upkeep.trans (hlaw : Lawful refilled Kept Same) (h : Upkeep Kept cap Same t t')
    (h' : Upkeep Kept cap Same t' t'') : Upkeep Kept cap Same t t'' :=
  ⟨h'.sound, fun a => hlaw.trans (h'.same a) (h.same a), h'.size.trans h.size⟩

theorem refill_spec (hlaw : Lawful refilled Kept Same) (h : Sound Kept cap t) (key : α) :
    Upkeep Kept cap Same t (refill refilled t key).1 ∧
      (refill refilled t key).1.lookup key = (refill refilled t key).2 ∧
      (refill refilled t key).2 = (t.lookup key).bind refilled := by
  unfold refill
  cases he : t.lookup key with
  | none => exact ⟨.refl hlaw h, he, rfl⟩
  | some e =>
    have hsame := hlaw.same (h.kept key e he)
    dsimp only
    cases hr : refilled e with
    | none =>
      rw [hr] at hsame
      refine ⟨⟨h.erase, fun a => ?_, size_erase_le t key⟩, AList.lookup_erase _ _, hr.symm⟩
      by_cases hkey : a = key
      · subst hkey
        rwa [AList.lookup_erase, he]
      · rw [AList.lookup_erase_ne hkey]
        exact hlaw.refl _
    | some e' =>
      rw [hr] at hsame
      have hsize := size_insert_of_mem he e'
      have hkept := h.insert (hlaw.kept (h.kept key e he) hr) (hsize.le.trans h.bounded)
      refine ⟨⟨hkept, fun a => ?_, hsize.le⟩, AList.lookup_insert _, hr.symm⟩
      by_cases hkey : a = key
      · subst hkey
        rwa [AList.lookup_insert, he]
      · rw [AList.lookup_insert_ne hkey]
        exact hlaw.refl _

theorem sweep_upkeep (hlaw : Lawful refilled Kept Same) (h : Sound Kept cap t) :
    Upkeep Kept cap Same t (sweep refilled t) := by
  suffices hfold : ∀ (keys : List α) (t : Entries α E), Sound Kept cap t →
      Upkeep Kept cap Same t (keys.foldl (fun t key => (refill refilled t key).1) t)
        from hfold t.keys t h
  intro keys
  induction keys with
  | nil => exact fun t h => .refl hlaw h
  | cons key keys ih =>
    intro t h
    have hfirst := (refill_spec hlaw h key).1
    exact hfirst.trans hlaw (ih _ hfirst.sound)

theorem room_after_refill (h : Sound Kept cap t) (hnone : (refill refilled t key).2 = none) :
    (refill refilled t key).1 = t ∨ size (refill refilled t key).1 < cap := by
  unfold refill at hnone ⊢
  cases he : t.lookup key with
  | none => exact .inl rfl
  | some e =>
    rw [he] at hnone
    dsimp only at hnone ⊢
    cases hr : refilled e with
    | some e' =>
      rw [hr] at hnone
      cases hnone
    | none => exact .inr ((size_erase_lt he).trans_le h.bounded)

theorem spend_spec (hlaw : Lawful refilled Kept Same) (h : Sound Kept cap t)
    (hspent : ∀ o : Option E, (∀ e ∈ o, Kept e) → Kept (spent o)) (key : α) :
    Sound Kept cap (spend refilled cap spent t key).1 ∧
      ((spend refilled cap spent t key).2 = true → ∀ a,
        if a = key then
          (spend refilled cap spent t key).1.lookup a = some (spent ((t.lookup a).bind refilled))
        else Same ((spend refilled cap spent t key).1.lookup a) (t.lookup a)) ∧
      (¬cap ≤ size (sweep refilled t) → (spend refilled cap spent t key).2 = true) := by
  -- what holds of an insertion into a table that was only kept up
  have hwritten : ∀ {kept : Entries α E}, Upkeep Kept cap Same t kept → ∀ a,
      if a = key then (kept.insert key (spent ((t.lookup key).bind refilled))).lookup a =
        some (spent ((t.lookup a).bind refilled))
      else
        Same ((kept.insert key (spent ((t.lookup key).bind refilled))).lookup a) (t.lookup a) := by
    intro kept hup a
    split_ifs with ha
    · subst ha
      exact AList.lookup_insert _
    · rw [AList.lookup_insert_ne ha]
      exact hup.same a
  obtain ⟨hup, hlookup, hentry⟩ := refill_spec hlaw h key
  have hroom : (refill refilled t key).2 = none →
      (refill refilled t key).1 = t ∨ size (refill refilled t key).1 < cap := room_after_refill h
  unfold spend
  rcases hr : refill refilled t key with ⟨first, kept⟩
  rw [hr] at hup hlookup hentry hroom
  dsimp only at hup hlookup hentry hroom
  rw [← hentry] at hwritten
  cases kept with
  | some e =>
    have hkept : Kept (spent (some e)) := hspent (some e) fun e' he' => by
      obtain rfl := Option.some.inj he'
      exact hup.sound.kept key e hlookup
    have hsize := size_insert_of_mem hlookup (spent (some e))
    exact ⟨hup.sound.insert hkept (hsize.le.trans hup.sound.bounded),
      fun _ => hwritten hup, fun _ => rfl⟩
  | none =>
    dsimp only
    have hswept :
      Upkeep Kept cap Same first (if cap ≤ size first then sweep refilled first else first) := by
      split
      · exact sweep_upkeep hlaw hup.sound
      · exact .refl hlaw hup.sound
    have hless : ¬cap ≤ size (sweep refilled t) →
        ¬cap ≤ size (if cap ≤ size first then sweep refilled first else first) := by
      intro hfree
      split
      · rcases hroom rfl with rfl | hlt
        · exact hfree
        · omega
      · assumption
    generalize (if cap ≤ size first then sweep refilled first else first) = swept at hswept hless
    have hall := hup.trans hlaw hswept
    by_cases hfull : cap ≤ size swept
    · rw [if_pos hfull]
      exact ⟨hall.sound, fun hfalse => Bool.noConfusion hfalse,
        fun hfree => absurd hfull (hless hfree)⟩
    · rw [if_neg hfull]
      have hkept : Kept (spent none) :=
        hspent none fun _ hnone => absurd hnone (Option.not_mem_none _)
      have hsize := size_insert_le swept key (spent none)
      exact ⟨hall.sound.insert hkept (hsize.trans (not_le.mp hfull)),
        fun _ => hwritten hall, fun _ => rfl⟩

end Sangtachi.LazyTable
