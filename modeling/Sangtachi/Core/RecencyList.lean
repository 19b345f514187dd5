import Mathlib.Data.Finset.Card
import Mathlib.Data.List.Pairwise
import Mathlib.Data.Finset.Insert
import Mathlib.Data.Finset.Dedup

/-! # Recency lists

A list of stamped keys with an age limit and a size limit. Adding a key moves it to the back;
where the list is full the front is pushed out. What such a list contains depends on the calls
made so far alone: the latest addition of the key and the keys added since. -/
namespace Sangtachi.Recency

structure Stamped (κ : Type) where
  key : κ
  time : ℕ
  deriving DecidableEq, Repr

variable {κ : Type} [DecidableEq κ]

/-- Expired from `time + ttl` on; never when the clock reads less than the stamp. -/
def Stamped.expired (ttl : ℕ) (x : Stamped κ) (now : ℕ) : Bool :=
  x.time ≤ now ∧ ttl ≤ now - x.time

def expire (ttl : ℕ) (l : List (Stamped κ)) (now : ℕ) : List (Stamped κ) :=
  l.filter (fun x => !x.expired ttl now)

def contains (ttl : ℕ) (l : List (Stamped κ)) (k : κ) (now : ℕ) : Bool :=
  l.any (fun x => x.key = k && !x.expired ttl now)

/-- Pushes out the front until there is room for one more. -/
def makeRoom (cap : ℕ) (l : List (Stamped κ)) : List (Stamped κ) := l.drop (l.length + 1 - cap)

def add (cap ttl : ℕ) (l : List (Stamped κ)) (k : κ) (now : ℕ) : List (Stamped κ) :=
  makeRoom cap ((expire ttl l now).eraseP (·.key = k)) ++ [⟨k, now⟩]

def keys (l : List (Stamped κ)) : Finset κ := (l.map Stamped.key).toFinset

/-! ## Histories -/

inductive Action (κ : Type) where
  | add (k : κ)
  | expire
  deriving DecidableEq, Repr

structure Call (κ : Type) where
  time : ℕ
  action : Action κ
  deriving DecidableEq, Repr

def Action.apply (cap ttl : ℕ) (l : List (Stamped κ)) (now : ℕ) : Action κ → List (Stamped κ)
  | .add k => Recency.add cap ttl l k now
  | .expire => Recency.expire ttl l now

/-- The calls made since the list was empty, with a clock that never goes back. -/
inductive History (cap ttl : ℕ) : List (Call κ) → ℕ → List (Stamped κ) → Prop where
  | start (t : ℕ) : History cap ttl [] t []
  | call {h t l} (c : Action κ) (now : ℕ) : History cap ttl h t l → t ≤ now →
      History cap ttl (h ++ [⟨now, c⟩]) now (c.apply cap ttl l now)

def addedKeys (h : List (Call κ)) : Finset κ :=
  (h.filterMap (fun c => match c.action with | .add k => some k | .expire => none)).toFinset

/-- The latest addition of `k` was at `a`, and `others` are the keys added since. -/
def LatestAdded (h : List (Call κ)) (k : κ) (a : ℕ) (others : Finset κ) : Prop :=
  ∃ pre post, h = pre ++ ⟨a, .add k⟩ :: post ∧ k ∉ addedKeys post ∧ others = addedKeys post

@[simp] theorem addedKeys_nil : addedKeys ([] : List (Call κ)) = ∅ := rfl

@[simp] theorem addedKeys_add (h : List (Call κ)) (t : ℕ) (k : κ) :
    addedKeys (h ++ [⟨t, .add k⟩]) = insert k (addedKeys h) := by
  ext x
  simp [addedKeys]

@[simp] theorem addedKeys_expire (h : List (Call κ)) (t : ℕ) :
    addedKeys (h ++ [⟨t, .expire⟩]) = addedKeys h := by
  simp [addedKeys]

theorem snoc_eq_split {α : Type} {h pre post : List α} {c x : α} (e : h ++ [c] = pre ++ x :: post) :
    (post = [] ∧ c = x ∧ h = pre) ∨ ∃ post', post = post' ++ [c] ∧ h = pre ++ x :: post' := by
  rcases List.eq_nil_or_concat post with rfl | ⟨post', y, rfl⟩
  · obtain ⟨rfl, hc⟩ := List.append_inj' e rfl
    exact .inl ⟨rfl, by simpa using hc, rfl⟩
  · have e' : h ++ [c] = (pre ++ x :: post') ++ [y] := by simpa using e
    obtain ⟨rfl, hc⟩ := List.append_inj' e' rfl
    obtain rfl : c = y := by simpa using hc
    exact .inr ⟨post', List.concat_eq_append, rfl⟩

theorem latest_same {h : List (Call κ)} {t a : ℕ} {k : κ} {others : Finset κ} :
    LatestAdded (h ++ [⟨t, .add k⟩]) k a others ↔ a = t ∧ others = ∅ := by
  constructor
  · rintro ⟨pre, post, e, hk, rfl⟩
    rcases snoc_eq_split e with ⟨rfl, hc, -⟩ | ⟨post', rfl, -⟩
    · cases hc
      exact ⟨rfl, rfl⟩
    · simp at hk
  · rintro ⟨rfl, rfl⟩
    exact ⟨h, [], rfl, by simp, rfl⟩

theorem latest_other {h : List (Call κ)} {t a : ℕ} {j k : κ} {others : Finset κ} (hne : k ≠ j) :
    LatestAdded (h ++ [⟨t, .add j⟩]) k a others ↔
      ∃ before, LatestAdded h k a before ∧ others = insert j before := by
  constructor
  · rintro ⟨pre, post, e, hk, rfl⟩
    rcases snoc_eq_split e with ⟨-, hc, -⟩ | ⟨post', rfl, rfl⟩
    · cases hc
      exact absurd rfl hne
    · rw [addedKeys_add, Finset.mem_insert, not_or] at hk
      exact ⟨addedKeys post', ⟨pre, post', rfl, hk.2, rfl⟩, addedKeys_add _ _ _⟩
  · rintro ⟨before, ⟨pre, post, rfl, hk, rfl⟩, rfl⟩
    refine ⟨pre, post ++ [⟨t, .add j⟩], by simp, ?_, (addedKeys_add _ _ _).symm⟩
    simpa [hne] using hk

theorem latest_expire {h : List (Call κ)} {t a : ℕ} {k : κ} {others : Finset κ} :
    LatestAdded (h ++ [⟨t, .expire⟩]) k a others ↔ LatestAdded h k a others := by
  constructor
  · rintro ⟨pre, post, e, hk, rfl⟩
    rcases snoc_eq_split e with ⟨-, hc, -⟩ | ⟨post', rfl, rfl⟩
    · cases hc
    · rw [addedKeys_expire] at hk ⊢
      exact ⟨pre, post', rfl, hk, rfl⟩
  · rintro ⟨pre, post, rfl, hk, rfl⟩
    exact ⟨pre, post ++ [⟨t, .expire⟩], by simp, by simpa using hk, by simp⟩

theorem LatestAdded.not_mem {h : List (Call κ)} {k : κ} {a : ℕ} {others : Finset κ}
    (hl : LatestAdded h k a others) : k ∉ others := by
  obtain ⟨_, _, _, hk, rfl⟩ := hl
  exact hk

theorem LatestAdded.unique {h : List (Call κ)} {k : κ} {a b : ℕ} {s t : Finset κ}
    (hs : LatestAdded h k a s) (ht : LatestAdded h k b t) : a = b ∧ s = t := by
  induction h using List.reverseRecOn generalizing s t with
  | nil =>
    obtain ⟨pre, post, e, -⟩ := hs
    simp at e
  | append_singleton h c ih =>
    obtain ⟨now, c⟩ := c
    cases c with
    | expire => exact ih (latest_expire.1 hs) (latest_expire.1 ht)
    | add j =>
      by_cases hj : k = j
      · subst hj
        obtain ⟨rfl, rfl⟩ := latest_same.1 hs
        obtain ⟨rfl, rfl⟩ := latest_same.1 ht
        exact ⟨rfl, rfl⟩
      · obtain ⟨s', hs', rfl⟩ := (latest_other hj).1 hs
        obtain ⟨t', ht', rfl⟩ := (latest_other hj).1 ht
        obtain ⟨rfl, rfl⟩ := ih hs' ht'
        exact ⟨rfl, rfl⟩

/-! ## The invariant -/

/-- Each entry carries the time of the latest addition of its key, and the keys behind it are the
ones added since. -/
def Placed (h : List (Call κ)) : List (Stamped κ) → Prop
  | [] => True
  | x :: l => LatestAdded h x.key x.time (keys l) ∧ Placed h l

structure Holds (cap ttl : ℕ) (h : List (Call κ)) (t : ℕ) (l : List (Stamped κ)) : Prop where
  placed : Placed h l
  ordered : l.Pairwise (fun x y => x.time ≤ y.time)
  past : ∀ x ∈ l, x.time ≤ t
  size : l.length ≤ cap
  kept : ∀ k a others, LatestAdded h k a others → t < a + ttl → others.card < cap → ⟨k, a⟩ ∈ l

@[simp] theorem mem_keys {l : List (Stamped κ)} {k : κ} : k ∈ keys l ↔ ∃ x ∈ l, x.key = k := by
  simp [keys]

theorem Placed.suffix {h : List (Call κ)} {l m : List (Stamped κ)} (hp : Placed h l)
    (hs : m <:+ l) : Placed h m := by
  obtain ⟨pre, rfl⟩ := hs
  induction pre with
  | nil => exact hp
  | cons x pre ih => exact ih hp.2

theorem Placed.nodup {h : List (Call κ)} {l : List (Stamped κ)} (hp : Placed h l) :
    (l.map Stamped.key).Nodup := by
  induction l with
  | nil => exact List.nodup_nil
  | cons x l ih =>
    have hx := hp.1.not_mem
    rw [mem_keys] at hx
    rw [List.map_cons, List.nodup_cons, List.mem_map]
    exact ⟨hx, ih hp.2⟩

theorem Placed.behind {h : List (Call κ)} {u v : List (Stamped κ)} {x : Stamped κ}
    (hp : Placed h (u ++ x :: v)) : LatestAdded h x.key x.time (keys v) :=
  (hp.suffix (List.suffix_append u (x :: v))).1

theorem Placed.latest {h : List (Call κ)} {l : List (Stamped κ)} {x : Stamped κ}
    (hp : Placed h l) (hx : x ∈ l) :
    ∃ others, LatestAdded h x.key x.time others ∧ others.card < l.length := by
  obtain ⟨u, v, rfl⟩ := List.append_of_mem hx
  refine ⟨keys v, hp.behind, ?_⟩
  have hcard : (keys v).card ≤ v.length := by
    have h := List.toFinset_card_le (v.map Stamped.key)
    rw [List.length_map] at h
    exact h
  simp only [List.length_append, List.length_cons]
  omega

theorem card_keys {h : List (Call κ)} {l : List (Stamped κ)} (hp : Placed h l) :
    (keys l).card = l.length := by
  simpa [keys] using List.toFinset_card_of_nodup hp.nodup

/-! ## Expiry -/

omit [DecidableEq κ] in
theorem expired_iff {ttl now : ℕ} {x : Stamped κ} :
    x.expired ttl now = false ↔ now < x.time ∨ now < x.time + ttl := by
  simp only [Stamped.expired, decide_eq_false_iff_not, not_and_or]
  omega

omit [DecidableEq κ] in
theorem expire_suffix {ttl now : ℕ} {l : List (Stamped κ)}
    (ho : l.Pairwise (fun x y => x.time ≤ y.time)) : expire ttl l now <:+ l := by
  induction l with
  | nil => exact List.suffix_refl _
  | cons x l ih =>
    obtain ⟨hx, hl⟩ := List.pairwise_cons.1 ho
    by_cases he : x.expired ttl now = true
    · rw [expire, List.filter_cons_of_neg (by simp [he])]
      exact (ih hl).trans (List.suffix_cons x l)
    · -- what stands behind an entry that is not expired is no older than it
      have hall : ∀ y ∈ x :: l, (!y.expired ttl now) = true := by
        intro y hy
        rw [Bool.not_eq_true'] at *
        rw [Bool.not_eq_true] at he
        rw [expired_iff] at he ⊢
        rcases List.mem_cons.1 hy with rfl | hy
        · exact he
        · have := hx y hy
          omega
      rw [expire, List.filter_eq_self.2 hall]

theorem expire_holds {cap ttl : ℕ} {h : List (Call κ)} {t now : ℕ} {l : List (Stamped κ)}
    (hl : Holds cap ttl h t l) (ht : t ≤ now) : Holds cap ttl h now (expire ttl l now) := by
  have hs : expire ttl l now <:+ l := expire_suffix hl.ordered
  constructor
  · exact hl.placed.suffix hs
  · exact hl.ordered.sublist hs.sublist
  · intro x hx
    exact (hl.past x (hs.subset hx)).trans ht
  · exact hs.length_le.trans hl.size
  · intro k a others hlast hage hcard
    have hin := hl.kept k a others hlast (by omega) hcard
    rw [expire, List.mem_filter]
    refine ⟨hin, ?_⟩
    rw [Bool.not_eq_true', expired_iff]
    exact .inr hage

theorem Placed.expired_call {h : List (Call κ)} {t : ℕ} {l : List (Stamped κ)} (hp : Placed h l) :
    Placed (h ++ [⟨t, .expire⟩]) l := by
  induction l with
  | nil => trivial
  | cons x l ih => exact ⟨latest_expire.2 hp.1, ih hp.2⟩

/-! ## Addition -/

theorem keys_erase_append (k : κ) (t : ℕ) (l : List (Stamped κ)) :
    keys (l.eraseP (·.key = k) ++ [⟨k, t⟩]) = insert k (keys l) := by
  induction l with
  | nil => rfl
  | cons x l ih =>
    by_cases hx : x.key = k
    · rw [List.eraseP_cons_of_pos (by simpa using hx)]
      ext j
      rw [mem_keys, Finset.mem_insert, mem_keys]
      constructor
      · rintro ⟨y, hy, rfl⟩
        rcases List.mem_append.1 hy with hy | hy
        · exact .inr ⟨y, List.mem_cons_of_mem x hy, rfl⟩
        · exact .inl (by rw [List.mem_singleton.1 hy])
      · rintro (rfl | ⟨y, hy, rfl⟩)
        · exact ⟨⟨j, t⟩, List.mem_append_right l (List.mem_singleton_self _), rfl⟩
        · rcases List.mem_cons.1 hy with rfl | hy
          · exact ⟨⟨k, t⟩, List.mem_append_right l (List.mem_singleton_self _), hx.symm⟩
          · exact ⟨y, List.mem_append_left _ hy, rfl⟩
    · rw [List.eraseP_cons_of_neg (by simpa using hx)]
      have hcons : ∀ m : List (Stamped κ), keys (x :: m) = insert x.key (keys m) := by
        intro m
        simp [keys]
      rw [List.cons_append, hcons, ih, hcons, Finset.insert_comm]

/-- The entry of the key moves to the back; every other entry has one more key behind it, or the
same ones when the key stood there already. -/
theorem Placed.moved {h : List (Call κ)} {k : κ} {t : ℕ} {l : List (Stamped κ)} (hp : Placed h l) :
    Placed (h ++ [⟨t, .add k⟩]) (l.eraseP (·.key = k) ++ [⟨k, t⟩]) := by
  induction l with
  | nil => exact ⟨latest_same.2 ⟨rfl, rfl⟩, trivial⟩
  | cons x l ih =>
    by_cases hx : x.key = k
    · have hnot : ∀ y ∈ l, ¬ y.key = k := by
        intro y hy e
        exact hp.1.not_mem (mem_keys.2 ⟨y, hy, e.trans hx.symm⟩)
      rw [List.eraseP_cons_of_pos (by simpa using hx)]
      have hself : l.eraseP (·.key = k) = l := List.eraseP_of_forall_not (by simpa using hnot)
      rw [hself] at ih
      exact ih hp.2
    · rw [List.eraseP_cons_of_neg (by simpa using hx)]
      refine ⟨(latest_other hx).2 ⟨keys l, hp.1, ?_⟩, ih hp.2⟩
      exact keys_erase_append k t l

omit [DecidableEq κ] in
theorem makeRoom_suffix (cap : ℕ) (l : List (Stamped κ)) : makeRoom cap l <:+ l :=
  List.drop_suffix _ _

theorem add_suffix (cap ttl : ℕ) (l : List (Stamped κ)) (k : κ) (now : ℕ) :
    add cap ttl l k now <:+ (expire ttl l now).eraseP (·.key = k) ++ [⟨k, now⟩] := by
  obtain ⟨pre, he⟩ := makeRoom_suffix cap ((expire ttl l now).eraseP (·.key = k))
  refine ⟨pre, ?_⟩
  rw [add, ← List.append_assoc, he]

theorem add_holds {cap ttl : ℕ} {h : List (Call κ)} {t now : ℕ} {l : List (Stamped κ)} {k : κ}
    (hcap : 0 < cap) (hl : Holds cap ttl h t l) (ht : t ≤ now) :
    Holds cap ttl (h ++ [⟨now, .add k⟩]) now (add cap ttl l k now) := by
  have he := expire_holds hl ht
  have hmoved := he.placed.moved (k := k) (t := now)
  have hsuffix := add_suffix cap ttl l k now
  have hsub := List.eraseP_sublist (p := fun x : Stamped κ => x.key = k) (l := expire ttl l now)
  constructor
  · exact hmoved.suffix hsuffix
  · apply List.Pairwise.sublist hsuffix.sublist
    rw [List.pairwise_append]
    refine ⟨he.ordered.sublist hsub, by simp, ?_⟩
    intro x hx y hy
    obtain rfl := List.mem_singleton.1 hy
    exact he.past x (hsub.subset hx)
  · intro x hx
    rcases List.mem_append.1 (hsuffix.subset hx) with hx | hx
    · exact he.past x (hsub.subset hx)
    · obtain rfl := List.mem_singleton.1 hx
      exact le_rfl
  · simp only [add, makeRoom, List.length_append, List.length_drop, List.length_singleton]
    omega
  · intro j a others hlast hage hcard
    by_cases hj : j = k
    · subst hj
      obtain ⟨rfl, rfl⟩ := latest_same.1 hlast
      exact List.mem_append_right _ (List.mem_singleton_self _)
    · obtain ⟨before, hbefore, rfl⟩ := (latest_other hj).1 hlast
      have hin : (⟨j, a⟩ : Stamped κ) ∈ expire ttl l now := by
        refine he.kept j a before hbefore hage (lt_of_le_of_lt ?_ hcard)
        exact Finset.card_le_card (Finset.subset_insert k before)
      have herased : (⟨j, a⟩ : Stamped κ) ∈ (expire ttl l now).eraseP (·.key = k) := by
        rw [List.mem_eraseP_of_neg (by simpa using hj)]
        exact hin
      -- fewer than `cap` entries stand behind it, so the room is made in front of it
      obtain ⟨u, v, huv⟩ := List.append_of_mem herased
      have hsplit : Placed (h ++ [⟨now, .add k⟩]) (u ++ ⟨j, a⟩ :: (v ++ [⟨k, now⟩])) := by
        have := hmoved
        rw [huv] at this
        simpa using this
      have hothers := (hsplit.behind.unique hlast).2
      have hlen : (keys (v ++ [⟨k, now⟩])).card = v.length + 1 := by
        rw [card_keys (hsplit.suffix (List.suffix_append u _)).2]
        simp
      rw [hothers] at hlen
      refine List.mem_append_left _ ?_
      rw [makeRoom, huv, List.drop_append_of_le_length]
      · simp
      · simp only [List.length_append, List.length_cons]
        omega

/-! ## Every history -/

theorem history_holds {cap ttl : ℕ} (hcap : 0 < cap) {h : List (Call κ)} {t : ℕ}
    {l : List (Stamped κ)} (hh : History cap ttl h t l) : Holds cap ttl h t l := by
  induction hh with
  | start t =>
    refine ⟨trivial, List.Pairwise.nil, by simp, Nat.zero_le _, ?_⟩
    rintro k a others ⟨pre, post, e, -⟩
    simp at e
  | @call h t l c now hh ht ih =>
    cases c with
    | add k => exact add_holds hcap ih ht
    | expire =>
      have he := expire_holds ih ht
      refine ⟨he.placed.expired_call, he.ordered, he.past, he.size, ?_⟩
      intro k a others hlast
      exact he.kept k a others (latest_expire.1 hlast)

theorem contains_iff_mem {ttl now : ℕ} {l : List (Stamped κ)} {k : κ} :
    contains ttl l k now = true ↔ ∃ x ∈ l, x.key = k ∧ x.expired ttl now = false := by
  simp [contains]

/-- A key is contained exactly when its latest addition is young enough and few enough other keys
were added since. -/
theorem contains_iff {cap ttl : ℕ} (hcap : 0 < cap) {h : List (Call κ)} {t now : ℕ}
    {l : List (Stamped κ)} (hh : History cap ttl h t l) (ht : t ≤ now) (k : κ) :
    contains ttl l k now = true ↔
      ∃ a others, LatestAdded h k a others ∧ now < a + ttl ∧ others.card < cap := by
  have hl := history_holds hcap hh
  rw [contains_iff_mem]
  constructor
  · rintro ⟨x, hx, rfl, hage⟩
    obtain ⟨others, hlast, hcard⟩ := hl.placed.latest hx
    have hpast := hl.past x hx
    rw [expired_iff] at hage
    exact ⟨x.time, others, hlast, by omega, lt_of_lt_of_le hcard hl.size⟩
  · rintro ⟨a, others, hlast, hage, hcard⟩
    refine ⟨⟨k, a⟩, hl.kept k a others hlast (by omega) hcard, rfl, ?_⟩
    rw [expired_iff]
    exact .inr hage

theorem history_distinct {cap ttl : ℕ} (hcap : 0 < cap) {h : List (Call κ)} {t : ℕ}
    {l : List (Stamped κ)} (hh : History cap ttl h t l) :
    (l.map Stamped.key).Nodup ∧ l.length ≤ cap :=
  ⟨(history_holds hcap hh).placed.nodup, (history_holds hcap hh).size⟩

end Sangtachi.Recency
