import Sangtachi.Tunnel.Routing

/-! # Retired epochs over every run

The list of retired epochs is shared by all sessions and fed at two places: a renegotiation, and
the start of a new attempt. While no epoch is carried by packets of two peers, what is pinned by an
active session is not in the list, and what is in the list is taken by no session. -/
namespace Sangtachi.Tunnel

open Sangtachi.BigEndian Sangtachi.Packet Sangtachi.Peer Sangtachi.Recency

variable {io : SessionId → SessionIo} {T T' : Tunnel} {now : Millis} {a : Action} {epoch : U32}
  {r : RetiredEpochs}

/-! ## The list -/

theorem contains_later {t : Millis} (h : r.contains epoch t = false) (ht : t ≤ now) :
    r.contains epoch now = false := by
  unfold RetiredEpochs.contains Recency.contains at h ⊢
  rw [List.any_eq_false] at h ⊢
  intro x hx hnow
  apply h x hx
  rw [Bool.and_eq_true, Bool.not_eq_true'] at hnow ⊢
  refine ⟨hnow.1, ?_⟩
  rw [expired_iff] at hnow ⊢
  rcases hnow.2 with hlate | hyoung
  · exact .inl (lt_of_le_of_lt ht hlate)
  · exact .inr (lt_of_le_of_lt ht hyoung)

theorem add_contains {other : U32} (hne : other ≠ epoch) (h : r.contains epoch now = false) :
    (r.add other now).contains epoch now = false := by
  unfold RetiredEpochs.contains Recency.contains at h ⊢
  rw [List.any_eq_false] at h ⊢
  intro x hx hkey
  rcases List.mem_append.mp ((add_suffix _ _ _ _ _).subset hx) with hx | hx
  · exact h x (List.mem_filter.mp (List.eraseP_subset hx)).1 hkey
  · obtain rfl := List.mem_singleton.mp hx
    rw [Bool.and_eq_true] at hkey
    exact hne (of_decide_eq_true hkey.1)

theorem adds_contains {epochs : List U32} (hne : epoch ∉ epochs)
    (h : r.contains epoch now = false) :
    (epochs.foldl (fun r x => r.add x now) r).contains epoch now = false := by
  induction epochs generalizing r with
  | nil => exact h
  | cons x rest ih =>
    rw [List.mem_cons, not_or] at hne
    exact ih hne.2 (add_contains (fun heq => hne.1 heq.symm) h)

def addCalls (now : Millis) (epochs : List U32) : List (Call U32) :=
  epochs.map (fun x => ⟨now, .add x⟩)

theorem History.adds {calls : List (Call U32)} {t₀ : Millis} (hh : RetiredEpochs.History calls t₀ r)
    (ht : t₀ ≤ now) (epochs : List U32) : ∃ t₁, t₁ ≤ now ∧
      RetiredEpochs.History (calls ++ addCalls now epochs) t₁
        (epochs.foldl (fun r x => r.add x now) r) := by
  induction epochs generalizing r calls t₀ with
  | nil => exact ⟨t₀, ht, by simpa [addCalls] using hh⟩
  | cons x rest ih =>
    obtain ⟨t₁, ht₁, hrest⟩ := ih (hh.add ht x) le_rfl
    exact ⟨t₁, ht₁, by simpa [addCalls] using hrest⟩

/-! ## What an effect retires -/

/-- The epochs that went into the list, with those the sessions reported among them. -/
def Retires (now : Millis) (T T' : Tunnel) (epochs : List U32) : Prop :=
  T'.retired = epochs.foldl (fun r x => r.add x now) T.retired ∧
    ∀ id old, (id, .retired old) ∈ T'.out → (id, .retired old) ∈ T.out ∨ old ∈ epochs

theorem Retires.refl (T : Tunnel) : Retires now T T [] := ⟨rfl, fun _ _ h => .inl h⟩

theorem Retires.same (hretired : T'.retired = T.retired) (hout : T'.out = T.out) :
    Retires now T T' [] :=
  ⟨hretired, fun _ _ h => .inl (hout ▸ h)⟩

theorem Retires.trans {U : Tunnel} {xs ys : List U32} (h : Retires now T T' xs)
    (k : Retires now T' U ys) :
    Retires now T U (xs ++ ys) := by
  refine ⟨by rw [k.1, h.1, List.foldl_append], fun id old hmem => ?_⟩
  rcases k.2 id old hmem with hmem | hmem
  · rcases h.2 id old hmem with hmem | hmem
    · exact .inl hmem
    · exact .inr (List.mem_append_left _ hmem)
  · exact .inr (List.mem_append_right _ hmem)

/-- The epochs that the start of a new attempt retires. -/
def endedEpochs (T : Tunnel) : List U32 :=
  ((T.sessions.filter (fun e => !e.session.active)).filter (fun e => !e.epochRetired)).filterMap
    (·.session.pinned)

theorem Effect.retires (h : Effect io now a T T') : ∃ epochs, Retires now T T' epochs := by
  cases h with
  | called e op hfind _ =>
    have hc := call_called io op now hfind
    refine ⟨_, hc.retired, fun id old hmem => ?_⟩
    rw [hc.out] at hmem
    rcases List.mem_append.mp hmem with hmem | hmem
    · exact .inl hmem
    · obtain ⟨x, hx, heq⟩ := List.mem_map.mp hmem
      obtain ⟨-, rfl⟩ := Prod.mk.inj heq
      exact .inr (List.mem_filterMap.mpr ⟨_, hx, rfl⟩)
  | counted c => exact ⟨[], .same rfl rfl⟩
  | countedFor k c => exact ⟨[], .same rfl rfl⟩
  | erased e _ _ => exact ⟨[], .same rfl rfl⟩
  | registered => exact ⟨endedEpochs T, rfl, fun _ _ h => .inl h⟩
  | inserted request epoch nonce _ _ => exact ⟨[], .same rfl rfl⟩
  | settings roster localVip => exact ⟨[], .same rfl rfl⟩

theorem Effects.retires (h : Effects io now a T T') : ∃ epochs, Retires now T T' epochs := by
  induction h with
  | refl => exact ⟨[], .refl _⟩
  | tail _ hlast ih =>
    obtain ⟨xs, hxs⟩ := ih
    obtain ⟨ys, hys⟩ := hlast.retires
    exact ⟨xs ++ ys, hxs.trans hys⟩

theorem Created.retires {request : NewSession} {result : Option SessionId × Tunnel}
    (h : Created T request now result) : ∃ epochs, Retires now T result.2 epochs ∧
      (T.admits request = true → ∀ old ∈ endedEpochs T, old ∈ epochs) := by
  cases h with
  | refused hadmits =>
    refine ⟨[], .refl T, fun h => ?_⟩
    rw [hadmits] at h
    cases h
  | undrawn _ => exact ⟨endedEpochs T, ⟨rfl, fun _ _ h => .inl h⟩, fun _ _ h => h⟩
  | created epoch nonce _ _ => exact ⟨endedEpochs T, ⟨rfl, fun _ _ h => .inl h⟩, fun _ _ h => h⟩

/-- What one turn adds: every epoch a session reported as retired, and at the start of a new
attempt the epochs of the ended sessions. -/
theorem perform_retires (hi : Invariant T) (a : Action) : ∃ epochs : List U32,
    (T.perform io a now).retired = epochs.foldl (fun r x => r.add x now) T.retired ∧
    (∀ id old, (id, .retired old) ∈ (T.perform io a now).out → old ∈ epochs) ∧
    ∀ request epochDraws nonceDraws, a = .createSession request epochDraws nonceDraws →
      T.admits request = true → ∀ old ∈ endedEpochs T, old ∈ epochs := by
  have hempty : ∀ {V : Tunnel} {epochs : List U32}, Retires now { T with out := [] } V epochs →
      ∀ id old, (id, .retired old) ∈ V.out → old ∈ epochs := by
    intro V epochs hr id old hmem
    exact (hr.2 id old hmem).resolve_left List.not_mem_nil
  by_cases hcreate : ∃ request epochDraws nonceDraws,
    a = .createSession request epochDraws nonceDraws
  · obtain ⟨request, epochDraws, nonceDraws, rfl⟩ := hcreate
    obtain ⟨epochs, hr, hended⟩ :=
      (createSession_cases { T with out := [] } request epochDraws nonceDraws now).retires
    refine ⟨epochs, hr.1, hempty hr, fun other _ _ heq => ?_⟩
    obtain ⟨rfl, -, -⟩ := Action.createSession.inj heq
    exact hended
  · have hchain : Effects io now a { T with out := [] } (T.perform io a now) := perform_effects hi a
    obtain ⟨epochs, hr⟩ := hchain.retires
    exact ⟨epochs, hr.1, hempty hr, fun request epochDraws nonceDraws heq =>
      absurd ⟨request, epochDraws, nonceDraws, heq⟩ hcreate⟩

/-! ## Pinned epochs -/

/-- `C` says which epochs a peer carries in its packets. -/
structure Clear (C : U32 → U32 → Prop) (now : Millis) (T : Tunnel) : Prop where
  carried : ∀ e ∈ T.sessions, ∀ x, e.session.pinned = some x → C e.cfg.peerId x
  clear : ∀ e ∈ T.sessions, e.session.active = true → ∀ x, e.session.pinned = some x →
    T.retired.contains x now = false

variable {C : U32 → U32 → Prop}

theorem Clear.later {t : Millis} (hc : Clear C t T) (ht : t ≤ now) : Clear C now T :=
  ⟨hc.carried, fun e he hactive x hx => contains_later (hc.clear e he hactive x hx) ht⟩

theorem Called.clear {e : Entry} {op : Op} {s' : Session} (hone : ∀ p q x, C p x → C q x → p = q)
    (hi : Invariant T) (hc : Clear C now T) (he : e ∈ T.sessions)
    (hcalled : Called io T e op now s' T')
    (hop : ∀ p, op = .receive p → C e.cfg.peerId p.header.sessionEpoch ∧
      T.retired.contains p.header.sessionEpoch now = false) : Clear C now T' := by
  have hr : Reported e.session op now s' := hcalled.session ▸ step_reported e.session op now
  have hmem := fun y => hcalled.mem hi he (y := y)
  have hactive : s'.active = true → e.session.active = true := by
    intro h
    by_contra hnot
    rw [Bool.not_eq_true] at hnot
    rw [hr.stays hnot] at h
    cases h
  have hretired := hcalled.retired
  cases hr.epoch with
  | stayed hpinned hnone =>
    rw [hnone] at hretired
    constructor
    · intro y hy x hx
      rcases (hmem y).mp hy with rfl | ⟨hy, -⟩
      · exact hc.carried e he x (hpinned ▸ hx)
      · exact hc.carried y hy x hx
    · intro y hy hyactive x hx
      rw [hretired]
      rcases (hmem y).mp hy with rfl | ⟨hy, -⟩
      · exact hc.clear e he (hactive hyactive) x (hpinned ▸ hx)
      · exact hc.clear y hy hyactive x hx
  | pinned p hp _ _ hpinned hnone =>
    rw [hnone] at hretired
    obtain ⟨hcarried, hfree⟩ := hop p hp
    constructor
    · intro y hy x hx
      rcases (hmem y).mp hy with rfl | ⟨hy, -⟩
      · obtain rfl := Option.some.inj (hpinned.symm.trans hx)
        exact hcarried
      · exact hc.carried y hy x hx
    · intro y hy hyactive x hx
      rw [hretired]
      rcases (hmem y).mp hy with rfl | ⟨hy, -⟩
      · obtain rfl := Option.some.inj (hpinned.symm.trans hx)
        exact hfree
      · exact hc.clear y hy hyactive x hx
  | replaced p old hp _ hold hne hpinned hsome =>
    rw [hsome] at hretired
    obtain ⟨hcarried, hfree⟩ := hop p hp
    constructor
    · intro y hy x hx
      rcases (hmem y).mp hy with rfl | ⟨hy, -⟩
      · obtain rfl := Option.some.inj (hpinned.symm.trans hx)
        exact hcarried
      · exact hc.carried y hy x hx
    · intro y hy hyactive x hx
      rw [hretired]
      rcases (hmem y).mp hy with rfl | ⟨hy, hye⟩
      · obtain rfl := Option.some.inj (hpinned.symm.trans hx)
        exact add_contains (fun h => hne h.symm) hfree
      · refine add_contains ?_ (hc.clear y hy hyactive x hx)
        rintro rfl
        exact hye (hi.same_key hy he (hone _ _ _ (hc.carried y hy _ hx) (hc.carried e he _ hold)))

theorem Clear.mapped {g : Entry → Entry} (hc : Clear C now T) (hg : SameEntry g)
    (hpinned : ∀ e, (g e).session.pinned = e.session.pinned)
    (hsessions : T'.sessions = T.sessions.map g)
    (hfree : ∀ e ∈ T.sessions, e.session.active = true → ∀ x, e.session.pinned = some x →
      T.retired.contains x now = false → T'.retired.contains x now = false) : Clear C now T' := by
  constructor
  · intro y hy x hx
    rw [hsessions] at hy
    obtain ⟨e, he, rfl⟩ := List.mem_map.mp hy
    rw [hpinned] at hx
    rw [hg.cfg]
    exact hc.carried e he x hx
  · intro y hy hactive x hx
    rw [hsessions] at hy
    obtain ⟨e, he, rfl⟩ := List.mem_map.mp hy
    rw [hg.active] at hactive
    rw [hpinned] at hx
    exact hfree e he hactive x hx (hc.clear e he hactive x hx)

theorem registered_clear (hone : ∀ p q x, C p x → C q x → p = q) (hi : Invariant T)
    (hc : Clear C now T) :
    Clear C now (T.registerEnded now) := by
  refine hc.mapped registered_same ?_ rfl ?_
  · intro e
    split_ifs <;> rfl
  · intro e he hactive x hx hfree
    refine adds_contains ?_ hfree
    intro hin
    obtain ⟨y, hy, hyx⟩ := List.mem_filterMap.mp hin
    obtain ⟨hy, hended⟩ := List.mem_filter.mp (List.mem_filter.mp hy).1
    obtain rfl := hi.same_key he hy (hone _ _ _ (hc.carried e he x hx) (hc.carried y hy x hyx))
    rw [hactive] at hended
    cases hended

theorem Effect.clear (hone : ∀ p q x, C p x → C q x → p = q)
    (ha : ∀ source datagram header payload, a = .onDatagram source datagram →
      checkCommon datagram = .ok (header, payload) → C header.peerId header.sessionEpoch)
    (h : Effect io now a T T') (hi : Invariant T) (hc : Clear C now T) : Clear C now T' := by
  have hsub : ∀ {V : Tunnel}, V.sessions ⊆ T.sessions → V.retired = T.retired → Clear C now V :=
    fun hsessions hretired => ⟨fun e he => hc.carried e (hsessions he),
      fun e he hactive x hx => hretired ▸ hc.clear e (hsessions he) hactive x hx⟩
  cases h with
  | called e op hfind hop =>
    refine (call_called io op now hfind).clear hone hi hc (find_some hfind).1 fun p hp => ?_
    obtain ⟨⟨datagram, hdatagram, hcheck⟩, hpeer, -, hfree⟩ := hop p hp
    exact ⟨hpeer ▸ ha _ _ _ _ hdatagram hcheck, hfree⟩
  | counted c => exact hsub (fun _ h => h) rfl
  | countedFor k c =>
    refine hc.mapped (countFor_same c) ?_ rfl fun _ _ _ _ _ h => h
    intro e
    split_ifs <;> rfl
  | erased e _ _ => exact hsub (fun _ h => (List.mem_filter.mp h).1) rfl
  | registered => exact registered_clear hone hi hc
  | inserted request epoch nonce _ _ =>
    have hmem : ∀ e ∈ (T.insert (T.newEntry request epoch nonce now)).sessions, ∀ x,
        e.session.pinned = some x → e ∈ T.sessions := by
      intro e he x hx
      rcases List.mem_cons.mp ((List.perm_orderedInsert _ _ _).mem_iff.mp he) with rfl | he
      · cases hx
      · exact (List.mem_filter.mp he).1
    exact ⟨fun e he x hx => hc.carried e (hmem e he x hx) x hx,
      fun e he hactive x hx => hc.clear e (hmem e he x hx) hactive x hx⟩
  | settings roster localVip => exact hsub (fun _ h => h) rfl

theorem Effects.clear (hone : ∀ p q x, C p x → C q x → p = q)
    (ha : ∀ source datagram header payload, a = .onDatagram source datagram →
      checkCommon datagram = .ok (header, payload) → C header.peerId header.sessionEpoch)
    (h : Effects io now a T T') (hi : Invariant T) (hc : Clear C now T) : Clear C now T' := by
  induction h with
  | refl => exact hc
  | tail hbefore hlast ih => exact hlast.clear hone ha (Effects.invariant hbefore hi) ih

/-! ## Every run -/

def Carried (h : List Turn) (peerId epoch : U32) : Prop :=
  ∃ x ∈ h, ∃ source datagram header payload, x.action = .onDatagram source datagram ∧
    checkCommon datagram = .ok (header, payload) ∧ header.peerId = peerId ∧
    header.sessionEpoch = epoch

def OnePeerPerEpoch (h : List Turn) : Prop := ∀ p q epoch, Carried h p epoch →
    Carried h q epoch → p = q

theorem run_clear {h : List Turn} {t : Millis} (hone : ∀ p q x, C p x → C q x → p = q)
    (hr : Run io h t T) (hcarried : ∀ p x, Carried h p x → C p x) : Clear C t T := by
  induction hr with
  | start t => exact ⟨fun e he => (by cases he), fun e he => (by cases he)⟩
  | @turn h t T a now hr ht ih =>
    have hbefore := ih fun p x ⟨y, hy, hrest⟩ => hcarried p x ⟨y, List.mem_append_left _ hy, hrest⟩
    have hclear : Clear C now { T with out := [] } :=
      ⟨(hbefore.later ht).carried, (hbefore.later ht).clear⟩
    refine Effects.clear hone ?_ (perform_effects (run_invariant hr) a)
      (run_invariant hr).cleared hclear
    intro source datagram header payload ha hcheck
    exact hcarried _ _
      ⟨_, List.mem_append_right _ (List.mem_singleton_self _), source, datagram, header, payload,
      ha, hcheck, rfl, rfl⟩

/-- Later in the same turn every session of `T` still pins what it pinned, or has reported it. -/
structure KeptPins (T U : Tunnel) : Prop where
  next : ∀ e ∈ T.sessions, e.id < U.nextId
  pinned : ∀ e ∈ T.sessions, ∀ y ∈ U.sessions, y.id = e.id → ∀ old, e.session.pinned = some old →
    y.session.pinned = some old ∨ (e.id, .retired old) ∈ U.out

theorem KeptPins.mapped {U V : Tunnel} {g : Entry → Entry} (hk : KeptPins T U) (hg : SameEntry g)
    (hpinned : ∀ e, (g e).session.pinned = e.session.pinned)
    (hsessions : V.sessions ⊆ U.sessions.map g) (hnext : V.nextId = U.nextId)
    (hout : V.out = U.out) : KeptPins T V := by
  refine ⟨fun e he => hnext ▸ hk.next e he, fun e he y hy hid old hold => ?_⟩
  obtain ⟨x, hx, rfl⟩ := List.mem_map.mp (hsessions hy)
  rw [hpinned, hout]
  exact hk.pinned e he x hx ((hg.id x).symm.trans hid) old hold

theorem Effect.keptPins {U V : Tunnel} (h : Effect io now a U V) (hi : Invariant U)
    (hk : KeptPins T U) :
    KeptPins T V := by
  have hsub : V.sessions ⊆ U.sessions → V.nextId = U.nextId → V.out = U.out → KeptPins T V :=
    fun hsessions hnext hout => ⟨fun e he => hnext ▸ hk.next e he,
      fun e he y hy hid old hold => hout ▸ hk.pinned e he y (hsessions hy) hid old hold⟩
  cases h with
  | called x op hfind _ =>
    have hx := (find_some hfind).1
    have hc := call_called io op now hfind
    have hr := step_reported (C := x.cfg) (E := io x.id) x.session op now
    refine ⟨fun e he => hc.nextId ▸ hk.next e he, fun e he y hy hid old hold => ?_⟩
    rw [hc.out]
    rcases (hc.mem hi hx).mp hy with rfl | ⟨hy, -⟩
    · rcases hk.pinned e he x hx hid old hold with hpinned | hmem
      · cases hr.epoch with
        | stayed hsame _ => exact .inl (hsame.trans hpinned)
        | pinned p _ _ hnone _ _ =>
          rw [hpinned] at hnone
          cases hnone
        | replaced p old' _ _ hold' _ _ hreported =>
          obtain rfl := Option.some.inj (hpinned.symm.trans hold')
          have hmem : old ∈ retiredOf (step x.cfg (io x.id) x.session op now).out := by
            rw [hreported]
            exact List.mem_singleton_self old
          obtain ⟨event, hevent, hretired⟩ := List.mem_filterMap.mp hmem
          refine .inr (List.mem_append_right _ (List.mem_map.mpr ⟨event, hevent, ?_⟩))
          cases event with
          | retired epoch =>
            obtain rfl := Option.some.inj hretired
            exact congrArg (fun id => (id, Event.retired epoch)) hid
          | sent d => cases hretired
          | transition before after => cases hretired
          | delivered inner => cases hretired
          | line l => cases hretired
      · exact .inr (List.mem_append_left _ hmem)
    · exact (hk.pinned e he y hy hid old hold).imp id (List.mem_append_left _)
  | counted c => exact hsub (fun _ h => h) rfl rfl
  | countedFor k c =>
    refine hk.mapped (countFor_same c) ?_ (fun _ h => h) rfl rfl
    intro e
    split_ifs <;> rfl
  | erased e _ _ => exact hsub (fun _ h => (List.mem_filter.mp h).1) rfl rfl
  | registered =>
    refine hk.mapped registered_same ?_ (fun _ h => h) rfl rfl
    intro e
    split_ifs <;> rfl
  | inserted request epoch nonce _ _ =>
    refine ⟨fun e he => Nat.lt_succ_of_lt (hk.next e he), fun e he y hy hid old hold => ?_⟩
    rcases List.mem_cons.mp ((List.perm_orderedInsert _ _ _).mem_iff.mp hy) with rfl | hy
    · exact absurd hid.symm (Nat.ne_of_lt (hk.next e he))
    · exact hk.pinned e he y (List.mem_filter.mp hy).1 hid old hold
  | settings roster localVip => exact hsub (fun _ h => h) rfl rfl

theorem perform_keptPins (hi : Invariant T) (a : Action) : KeptPins T (T.perform io a now) := by
  have hstart : KeptPins T { T with out := [] } := by
    refine ⟨hi.fresh, fun e he y hy hid old hold => .inl ?_⟩
    obtain rfl := hi.same_id hy he hid
    exact hold
  have hchain : Effects io now a { T with out := [] } (T.perform io a now) := perform_effects hi a
  generalize T.perform io a now = V at hchain ⊢
  induction hchain with
  | refl => exact hstart
  | tail hbefore hlast ih => exact hlast.keptPins (Effects.invariant hbefore hi.cleared) ih

/-- The calls made on the list of retired epochs in a run: each pinned epoch that was replaced by
another, and those of the ended sessions at each new attempt. -/
structure RetiredIn (h : List Turn) (calls : List (Call U32)) : Prop where
  replaced : ∀ x ∈ h, ∀ e ∈ x.before.sessions, ∀ y ∈ x.after.sessions, y.id = e.id → ∀ old,
    e.session.pinned = some old → y.session.pinned ≠ some old → ⟨x.now, .add old⟩ ∈ calls
  ended : ∀ x ∈ h, ∀ request epochDraws nonceDraws,
    x.action = .createSession request epochDraws nonceDraws →
    x.before.admits request = true → ∀ old ∈ endedEpochs x.before, ⟨x.now, .add old⟩ ∈ calls

theorem run_retired {h : List Turn} {t : Millis} (hr : Run io h t T) :
    ∃ calls t₀, t₀ ≤ t ∧ RetiredEpochs.History calls t₀ T.retired ∧ RetiredIn h calls := by
  induction hr with
  | start t => exact ⟨[], t, le_rfl, .start t, fun x hx => (by cases hx), fun x hx => (by cases hx)⟩
  | @turn h t T a now hr ht ih =>
    obtain ⟨calls, t₀, ht₀, hh, hin⟩ := ih
    have hi := run_invariant hr
    obtain ⟨epochs, hretired, hreplaced, hended⟩ := @perform_retires io T now hi a
    have hkept : KeptPins T (T.perform io a now) := perform_keptPins hi a
    obtain ⟨t₁, ht₁, hh'⟩ := History.adds hh (ht₀.trans ht) epochs
    rw [← hretired] at hh'
    have hadded : ∀ old ∈ epochs, (⟨now, .add old⟩ : Call U32) ∈ calls ++ addCalls now epochs :=
      fun old hold => List.mem_append_right _ (List.mem_map_of_mem hold)
    refine ⟨calls ++ addCalls now epochs, t₁, ht₁, hh', ?_, ?_⟩
    · intro x hx e he y hy hid old hold hnot
      rcases List.mem_append.mp hx with hx | hx
      · exact List.mem_append_left _ (hin.replaced x hx e he y hy hid old hold hnot)
      · obtain rfl := List.mem_singleton.mp hx
        exact hadded old
          (hreplaced e.id old ((hkept.pinned e he y hy hid old hold).resolve_left hnot))
    · intro x hx request epochDraws nonceDraws haction hadmits old hold
      rcases List.mem_append.mp hx with hx | hx
      · exact List.mem_append_left _
          (hin.ended x hx request epochDraws nonceDraws haction hadmits old hold)
      · obtain rfl := List.mem_singleton.mp hx
        exact hadded old (hended request epochDraws nonceDraws haction hadmits old hold)

theorem onDatagram_taken {e : Entry} {source : Endpoint} {datagram payload : List U8}
    {header : Header} (hi : Invariant T) (he : e ∈ T.sessions) (hactive : e.session.active = true)
    (hcheck : checkCommon datagram = .ok (header, payload)) (hpeer : header.peerId = e.cfg.peerId)
    (hfree : T.retired.contains header.sessionEpoch now = false) :
    T.onDatagram io source datagram now =
      (T.call io e.cfg.peerId (.receive ⟨header, payload, source⟩) now).capped := by
  unfold onDatagram
  rw [hcheck]
  dsimp only
  rw [hpeer, find_of_mem hi.keys he]
  dsimp only
  rw [hfree, hactive]
  rfl

theorem onDatagram_refused {source : Endpoint} {datagram payload : List U8} {header : Header}
    (hcheck : checkCommon datagram = .ok (header, payload))
    (hretired : T.retired.contains header.sessionEpoch now = true) :
    T.onDatagram io source datagram now = T.count .dropUnknownPeer ∨
      T.onDatagram io source datagram now = T.countFor header.peerId .dropRetiredEpoch := by
  unfold onDatagram
  rw [hcheck]
  dsimp only
  cases T.find header.peerId with
  | none => exact .inl rfl
  | some e =>
    dsimp only
    rw [hretired]
    exact .inr rfl

/-- What the list contains, and what that means for the sessions: a pinned epoch of an active
session is never in it, so the packets of its peer reach the session, and a packet under an epoch
in it reaches none. -/
theorem retired_epochs_stay_out :
    (∀ calls t r, RetiredEpochs.History calls t r →
      (∀ epoch now, t ≤ now → (r.contains epoch now = true ↔ StillRetired calls epoch now)) ∧
      (r.entries.map Stamped.key).Nodup ∧ r.entries.length ≤ maxRetiredEpochs) ∧
    ∀ io h t T, Run io h t T → OnePeerPerEpoch h →
      (∀ e ∈ T.sessions, e.session.active = true → ∀ epoch, e.session.pinned = some epoch →
        ∀ now, t ≤ now →
        T.retired.contains epoch now = false ∧
        ∀ source datagram header payload, checkCommon datagram = .ok (header, payload) →
          header.peerId = e.cfg.peerId → header.sessionEpoch = epoch →
          T.onDatagram io source datagram now =
            (T.call io e.cfg.peerId (.receive ⟨header, payload, source⟩) now).capped) ∧
      ∃ calls t₀, t₀ ≤ t ∧ RetiredEpochs.History calls t₀ T.retired ∧ RetiredIn h calls ∧
        ∀ now, t ≤ now →
          ∀ source datagram header payload, checkCommon datagram = .ok (header, payload) →
          StillRetired calls header.sessionEpoch now →
          T.onDatagram io source datagram now = T.count .dropUnknownPeer ∨
            T.onDatagram io source datagram now = T.countFor header.peerId .dropRetiredEpoch := by
  constructor
  · intro calls t r hh
    exact ⟨fun epoch now ht => hh.contains_iff ht epoch, hh.distinct.1, hh.distinct.2⟩
  · intro io h t T hr hone
    have hi := run_invariant hr
    constructor
    · intro e he hactive epoch hpinned now ht
      have hclear := (run_clear hone hr fun p x hx => hx).later ht
      have hfree := hclear.clear e he hactive epoch hpinned
      refine ⟨hfree, fun source datagram header payload hcheck hpeer hepoch => ?_⟩
      exact onDatagram_taken hi he hactive hcheck hpeer (hepoch ▸ hfree)
    · obtain ⟨calls, t₀, ht₀, hh, hin⟩ := run_retired hr
      refine ⟨calls, t₀, ht₀, hh, hin,
        fun now ht source datagram header payload hcheck hstill => ?_⟩
      exact onDatagram_refused hcheck ((hh.contains_iff (ht₀.trans ht) _).mpr hstill)

theorem play_actions (io : SessionId → SessionIo) (calls : List (Action × Millis)) (h : List Turn)
    (T : Tunnel) :
    (play io h T calls).1.map Turn.action = h.map Turn.action ++ calls.map Prod.fst := by
  induction calls generalizing h T with
  | nil => exact (List.append_nil _).symm
  | cons c rest ih =>
    rw [play, ih, List.map_append, List.append_assoc]
    rfl

/-- A HELLO of the peer under the given epoch. -/
def peerHello (epoch seq : U32) : List U8 :=
  serializeHeader (headerOf .hello ⟨2, epoch, seq⟩ (encodeHello ⟨nonceOf 5, 0x0A640002⟩)) ++
    encodeHello ⟨nonceOf 5, 0x0A640002⟩

/-- The peer begins under one epoch, starts again under another, and an old packet comes late. -/
def restartCalls : List (Action × Millis) :=
  [(.createSession (roomRequest 2 0x0A640002) [7] [nonceOf 1], 0),
    (.onDatagram roamHome (peerHello 9 0), 10),
   (.onDatagram roamHome (peerHello 11 0), 20), (.onDatagram roamHome (peerHello 9 1), 30)]

def restartRun : List Turn × Tunnel := play roomIo [] {} restartCalls

theorem restart_run : Run roomIo restartRun.1 30 restartRun.2 :=
  play_run restartCalls (.start 0) (by simp [InOrder, restartCalls])

theorem restart_onePeer : OnePeerPerEpoch restartRun.1 := by
  have hall : ∀ c ∈ restartCalls, ∀ source datagram, c.1 = .onDatagram source datagram →
      ∀ header payload, checkCommon datagram = .ok (header, payload) → header.peerId = 2 := by
    intro c hc source datagram hdatagram header payload hcheck
    have hread : ∀ epoch seq, datagram = peerHello epoch seq → header.peerId = 2 := by
      rintro epoch seq rfl
      have hbuilt :
        buildPacket .hello ⟨2, epoch, seq⟩ (encodeHello ⟨nonceOf 5, 0x0A640002⟩) maxDatagram =
          some (peerHello epoch seq) := buildPacket_eq (by rfl)
      rw [checkCommon_buildPacket hbuilt] at hcheck
      obtain ⟨rfl, -⟩ := Prod.mk.inj (Except.ok.inj hcheck)
      rfl
    simp only [restartCalls, List.mem_cons, List.not_mem_nil, or_false] at hc
    rcases hc with rfl | rfl | rfl | rfl
    · cases hdatagram
    · exact hread 9 0 (Action.onDatagram.inj hdatagram).2.symm
    · exact hread 11 0 (Action.onDatagram.inj hdatagram).2.symm
    · exact hread 9 1 (Action.onDatagram.inj hdatagram).2.symm
  have htwo : ∀ p x, Carried restartRun.1 p x → p = 2 := by
    rintro p x ⟨turn, hturn, source, datagram, header, payload, haction, hcheck, rfl, -⟩
    have hmem := List.mem_map_of_mem (f := Turn.action) hturn
    rw [restartRun, play_actions, List.map_nil, List.nil_append] at hmem
    obtain ⟨c, hc, hsame⟩ := List.mem_map.mp hmem
    exact hall c hc source datagram (hsame.trans haction) header payload hcheck
  exact fun p q x hp hq => (htwo p x hp).trans (htwo q x hq).symm

/-- The new epoch is pinned and not in the list, the old one is in it and its packet was dropped. -/
theorem restart_keeps_new_epoch : restartRun.2.retired.contains 9 30 = true ∧
    (restartRun.2.find 2).map (fun e => (e.session.pinned, e.session.counters .dropRetiredEpoch)) =
      some (some 11, 1) ∧
    ∀ e ∈ restartRun.2.sessions, e.session.active = true → ∀ epoch, e.session.pinned = some epoch →
      restartRun.2.retired.contains epoch 30 = false :=
  ⟨by decide +kernel, by decide +kernel, fun e he hactive epoch hpinned =>
    ((retired_epochs_stay_out.2 roomIo _ _ _ restart_run restart_onePeer).1 e he hactive epoch
      hpinned 30 le_rfl).1⟩

end Sangtachi.Tunnel
