import Sangtachi.Tunnel.Routing

/-! # Attempt nonces over every run

A session that ended goes in one of four ways, and its nonce is registered only when the next
session is asked for. Until then it is kept with the entry, or in the list of those erased. -/
namespace Sangtachi.Tunnel

open Sangtachi.BigEndian Sangtachi.Packet Sangtachi.Peer Sangtachi.Recency

variable {io : SessionId → SessionIo} {T T' : Tunnel} {now : Millis} {a : Action} {e : Entry}
  {k : U32} {op : Op}

/-! ## The list -/

/-- Of all that was registered the list has at least what did not expire. -/
structure Lists (regs : List (Stamped Nonce)) (t : Millis) (r : RetiredNonces) : Prop where
  past : ∀ x ∈ regs, x.time ≤ t
  kept : ∀ x ∈ regs, x.expired retiredNonceTtlMs t = false → x ∈ r.entries

theorem Lists.later {regs : List (Stamped Nonce)} {t : Millis} {r : RetiredNonces}
    (h : Lists regs t r) (ht : t ≤ now) :
    Lists regs now r := by
  refine ⟨fun x hx => (h.past x hx).trans ht, fun x hx hyoung => h.kept x hx ?_⟩
  have hpast := h.past x hx
  rw [expired_iff] at hyoung ⊢
  right
  have hnow := hyoung.resolve_left (Nat.not_lt.mpr (hpast.trans ht))
  exact lt_of_le_of_lt ht hnow

theorem Lists.add {regs : List (Stamped Nonce)} {r : RetiredNonces} (h : Lists regs now r)
    (nonce : Nonce) :
    Lists (regs ++ [⟨nonce, now⟩]) now (r.add nonce now) := by
  constructor
  · intro x hx
    rcases List.mem_append.mp hx with hx | hx
    · exact h.past x hx
    · rw [List.mem_singleton.mp hx]
  · intro x hx hyoung
    rcases List.mem_append.mp hx with hx | hx
    · have hmem : x ∈ expire retiredNonceTtlMs r.entries now := by
        rw [expire, List.mem_filter, hyoung]
        exact ⟨h.kept x hx hyoung, rfl⟩
      exact List.mem_append_left _ hmem
    · exact List.mem_append_right _ hx

theorem Lists.adds {regs : List (Stamped Nonce)} {r : RetiredNonces} (h : Lists regs now r)
    (nonces : List Nonce) :
    Lists (regs ++ nonces.map (⟨·, now⟩)) now (nonces.foldl (fun r x => r.add x now) r) := by
  induction nonces generalizing regs r with
  | nil =>
    rw [List.map_nil, List.append_nil]
    exact h
  | cons nonce rest ih =>
    have hrest := ih (h.add nonce)
    rw [List.append_assoc] at hrest
    exact hrest

theorem Lists.expired {regs : List (Stamped Nonce)} {r : RetiredNonces} {nonce : Nonce}
    (h : Lists regs now r) (hfree : r.contains nonce now = false) {x : Stamped Nonce}
    (hx : x ∈ regs)
    (hkey : x.key = nonce) :
    x.time + retiredNonceTtlMs ≤ now := by
  have hexpired : x.expired retiredNonceTtlMs now = true := by
    by_contra hyoung
    rw [Bool.not_eq_true] at hyoung
    have hmem := h.kept x hx hyoung
    unfold RetiredNonces.contains Recency.contains at hfree
    rw [List.any_eq_false] at hfree
    apply hfree x hmem
    rw [hyoung, decide_eq_true hkey]
    rfl
  unfold Stamped.expired at hexpired
  rw [decide_eq_true_eq] at hexpired
  omega

/-! ## Nonces that are still to be registered -/

/-- The session stands in the table without its mark, or its nonce was put down when it was erased.
-/
def Owed (T : Tunnel) (id : SessionId) (nonce : Nonce) : Prop :=
  (∃ e ∈ T.sessions, e.id = id ∧ e.cfg.attemptNonce = nonce ∧ e.nonceRetired = false) ∨
    nonce ∈ T.endedNonces

/-- What every operation but a new session keeps. -/
structure Keeps (T T' : Tunnel) : Prop where
  list : T'.retiredNonces = T.retiredNonces
  owed : ∀ id nonce, Owed T id nonce → Owed T' id nonce
  marked : ∀ y ∈ T'.sessions, y.nonceRetired = true →
    ∃ x ∈ T.sessions, x.nonceRetired = true ∧ x.cfg.attemptNonce = y.cfg.attemptNonce

theorem Keeps.refl (T : Tunnel) : Keeps T T :=
  ⟨rfl, fun _ _ h => h, fun y hy hmark => ⟨y, hy, hmark, rfl⟩⟩

theorem Keeps.trans {U : Tunnel} (h : Keeps T T') (h' : Keeps T' U) : Keeps T U := by
  refine ⟨h'.list.trans h.list, fun id nonce hold => h'.owed id nonce (h.owed id nonce hold),
    fun y hy hmark => ?_⟩
  obtain ⟨x, hx, hmark', hnonce⟩ := h'.marked y hy hmark
  obtain ⟨z, hz, hmark'', hnonce'⟩ := h.marked x hx hmark'
  exact ⟨z, hz, hmark'', hnonce'.trans hnonce⟩

/-- The entries may change in all but their identity and their mark. -/
theorem Keeps.mapped {g : Entry → Entry} (hid : ∀ e, (g e).id = e.id)
    (hcfg : ∀ e, (g e).cfg = e.cfg) (hmark : ∀ e, (g e).nonceRetired = e.nonceRetired)
    (hsessions : T'.sessions = T.sessions.map g)
    (hended : T'.endedNonces = T.endedNonces) (hlist : T'.retiredNonces = T.retiredNonces) :
    Keeps T T' := by
  refine ⟨hlist, fun id nonce hold => ?_, fun y hy hy' => ?_⟩
  · rcases hold with ⟨e, he, rfl, rfl, hnot⟩ | hmem
    · refine .inl ⟨g e, ?_, hid e, by rw [hcfg], (hmark e).trans hnot⟩
      rw [hsessions]
      exact List.mem_map_of_mem he
    · exact .inr (hended ▸ hmem)
  · rw [hsessions] at hy
    obtain ⟨x, hx, rfl⟩ := List.mem_map.mp hy
    exact ⟨x, hx, (hmark x).symm.trans hy', by rw [hcfg]⟩

theorem call_keeps : Keeps T (T.call io k op now) := by
  cases hfind : T.find k with
  | none =>
    rw [call_none hfind]
    exact .refl T
  | some e =>
    have hc := call_called io op now hfind
    exact .mapped (fun x => swap_id _ x) (fun x => swap_cfg _ x)
      (fun x => swap_nonceRetired _ x) hc.sessions
      hc.endedNonces hc.retiredNonces

theorem countFor_keeps (c : Counter) : Keeps T (T.countFor k c) := by
  refine .mapped
    (g := fun e => if e.cfg.peerId = k then { e with session := e.session.count c } else e) ?_ ?_ ?_
    rfl rfl rfl
  all_goals
    intro e
    split_ifs <;> rfl

theorem foldl_call_keeps (peers : List U32) :
    Keeps T (peers.foldl (fun T peerId => T.call io peerId op now) T) := by
  induction peers generalizing T with
  | nil => exact .refl T
  | cons k rest ih => exact call_keeps.trans ih

theorem sendRosters_keeps (sends : List RosterSend) : Keeps T (T.sendRosters io now sends) := by
  induction sends generalizing T with
  | nil => exact .refl T
  | cons x rest ih => exact call_keeps.trans (ih (T := T.call io x.1 (.sendRoster x.2) now))

theorem settings_keeps (roster : RosterPublisher) (localVip : Option U32) :
    Keeps T { T with roster := roster, localVip := localVip } :=
  ⟨rfl, fun _ _ h => h, fun y hy hmark => ⟨y, hy, hmark, rfl⟩⟩

theorem erase_keeps (hi : Invariant T) (he : e ∈ T.sessions) : Keeps T (T.erase e) := by
  refine ⟨rfl, fun id nonce hold => ?_,
    fun y hy hmark => ⟨y, ((mem_erase hi he).mp hy).1, hmark, rfl⟩⟩
  have hended : T.endedNonces ⊆ (T.erase e).endedNonces := by
    unfold erase
    dsimp only
    split_ifs
    · exact List.Subset.refl _
    · exact List.subset_append_left _ _
  rcases hold with ⟨x, hx, rfl, rfl, hnot⟩ | hmem
  · by_cases hxe : x = e
    · subst hxe
      right
      unfold erase
      dsimp only
      rw [hnot, if_neg (by decide)]
      exact List.mem_append_right _ (List.mem_singleton_self _)
    · exact .inl ⟨x, (mem_erase hi he).mpr ⟨hx, hxe⟩, rfl, rfl, hnot⟩
  · exact .inr (hended hmem)

theorem capped_keeps (hi : Invariant T) : Keeps T T.capped := by
  refine enforceRetentionCap_induct (P := Keeps) Keeps.refl ?_ hi _
  intro T e T' hi holdest _ hrest
  exact (erase_keeps hi holdest.1).trans hrest

theorem foldl_erase_keeps (hi : Invariant T) {l : List Entry} (hl : l.Sublist T.sessions)
    (hended : ∀ x ∈ l, x.session.active = false) : Keeps T (l.foldl erase T) :=
  foldl_erase_induct Keeps.refl
    (fun _ _ _ hi he _ hrest => (erase_keeps hi he).trans hrest) hi hl hended

theorem runRoster_keeps : Keeps T (T.runRoster io now) :=
  (settings_keeps (T.roster.run now T.connected).2 T.localVip).trans (sendRosters_keeps _)

theorem eraseExpired_keeps (hi : Invariant T) : Keeps T (T.eraseExpired now) :=
  foldl_erase_keeps hi List.filter_sublist (expired_ended hi)

theorem perform_keeps (hi : Invariant T) {a : Action}
    (ha : ∀ request epochDraws nonceDraws, a ≠ .createSession request epochDraws nonceDraws) :
    Keeps T (T.perform io a now) := by
  have hclear := hi.cleared
  have hkeep : Keeps T { T with out := [] } :=
    ⟨rfl, fun _ _ h => h, fun y hy hmark => ⟨y, hy, hmark, rfl⟩⟩
  refine hkeep.trans ?_
  unfold perform
  generalize ({ T with out := [] } : Tunnel) = U at hclear ⊢
  cases a with
  | createSession request epochDraws nonceDraws =>
    exact absurd rfl (ha request epochDraws nonceDraws)
  | onDatagram source datagram =>
    have hcases := onDatagram_cases io U source datagram now
    change Keeps U (U.onDatagram io source datagram now)
    generalize U.onDatagram io source datagram now = V at hcases ⊢
    cases hcases with
    | malformed | unknown => exact ⟨rfl, fun _ _ h => h, fun y hy hmark => ⟨y, hy, hmark, rfl⟩⟩
    | retired | ended => exact countFor_keeps _
    | received => exact call_keeps.trans (capped_keeps (call_invariant hclear))
  | sendData inner =>
    have hcases := sendData_cases io U inner now
    change Keeps U (U.sendData io inner now).2
    generalize U.sendData io inner now = result at hcases ⊢
    cases hcases with
    | dropped => exact ⟨rfl, fun _ _ h => h, fun y hy hmark => ⟨y, hy, hmark, rfl⟩⟩
    | notConnected => exact countFor_keeps _
    | sent => exact call_keeps
  | runTimers =>
    have hpoll : Keeps U (U.callAll io .poll now) := foldl_call_keeps _
    have hpolled : Effects io now .runTimers U (U.callAll io .poll now) :=
      foldl_call_effects (by simp) _
    have hran := hpolled.trans runRoster_effects
    have hran_invariant := Effects.invariant hran hclear
    have herased := hran.trans (eraseExpired_effects hran_invariant)
    exact ((hpoll.trans runRoster_keeps).trans (eraseExpired_keeps hran_invariant)).trans
      (capped_keeps (Effects.invariant herased hclear))
  | closeAll =>
    have hclose : Effects io now .closeAll U (U.callAll io .closeByUser now) :=
      foldl_call_effects (by simp) _
    exact (foldl_call_keeps _).trans (capped_keeps (Effects.invariant hclose hclear))
  | leaveRoom =>
    have hclose : Effects io now .leaveRoom U (U.callAll io .closeByUser now) :=
      foldl_call_effects (by simp) _
    have herase := (foldl_call_keeps _).trans (foldl_erase_keeps (Effects.invariant hclose hclear)
      (List.Sublist.refl _) (callAll_close hclear).1)
    exact herase.trans (settings_keeps _ none)
  | startPunch peerId => exact call_keeps
  | setLocalVirtualIp virtualIp => exact settings_keeps U.roster (some virtualIp)
  | startRoster self => exact settings_keeps (U.roster.start self) U.localVip
  | setRosterPeers peers => exact settings_keeps (U.roster.setPeers peers) U.localVip

/-! ## A new session -/

/-- The nonces that the next session registers, those of erased sessions last. -/
def endedAttempts (T : Tunnel) : List Nonce :=
  ((T.sessions.filter (fun e => !e.session.active)).filter (fun e => !e.nonceRetired)).map
    (·.cfg.attemptNonce) ++
    T.endedNonces

def Turn.registers (x : Turn) : List (Stamped Nonce) :=
  match x.action with
  | .createSession request _ _ =>
    if x.before.admits request then (endedAttempts x.before).map (⟨·, x.now⟩) else []
  | _ => []

def registrations (h : List Turn) : List (Stamped Nonce) := h.flatMap Turn.registers

/-- The session stood in the table at some time. -/
def Held (h : List Turn) (id : SessionId) (nonce : Nonce) : Prop :=
  ∃ x ∈ h, ∃ e ∈ x.after.sessions, e.id = id ∧ e.cfg.attemptNonce = nonce

/-- No nonce is lost: it is owed until it is registered. -/
structure Book (h : List Turn) (t : Millis) (T : Tunnel) : Prop where
  lists : Lists (registrations h) t T.retiredNonces
  settled : ∀ id nonce, Held h id nonce → Owed T id nonce ∨ ∃ x ∈ registrations h, x.key = nonce
  marked : ∀ e ∈ T.sessions, e.nonceRetired = true →
    ∃ x ∈ registrations h, x.key = e.cfg.attemptNonce

theorem registrations_snoc (h : List Turn) (x : Turn) :
    registrations (h ++ [x]) = registrations h ++ x.registers := by
  unfold registrations
  rw [List.flatMap_append, List.flatMap_singleton]

theorem settled_after {h : List Turn} {x : Turn} (hafter : x.after = T')
    (hold : ∀ id nonce, Held h id nonce → Owed T' id nonce ∨
      ∃ y ∈ registrations (h ++ [x]), y.key = nonce)
    (hmarked : ∀ e ∈ T'.sessions, e.nonceRetired = true →
      ∃ y ∈ registrations (h ++ [x]), y.key = e.cfg.attemptNonce) :
    ∀ id nonce, Held (h ++ [x]) id nonce → Owed T' id nonce ∨
      ∃ y ∈ registrations (h ++ [x]), y.key = nonce := by
  rintro id nonce ⟨y, hy, e, he, rfl, rfl⟩
  rcases List.mem_append.mp hy with hy | hy
  · exact hold _ _ ⟨y, hy, e, he, rfl, rfl⟩
  · obtain rfl := List.mem_singleton.mp hy
    rw [hafter] at he
    cases hmark : e.nonceRetired with
    | false => exact .inl (.inl ⟨e, he, rfl, rfl, hmark⟩)
    | true => exact .inr (hmarked e he hmark)

theorem registerEnded_nonces (T : Tunnel) (now : Millis) :
    (T.registerEnded now).retiredNonces =
      (endedAttempts T).foldl (fun r x => r.add x now) T.retiredNonces := rfl

theorem mem_endedAttempts (he : e ∈ T.sessions) (hended : e.session.active = false)
    (hmark : e.nonceRetired = false) :
    e.cfg.attemptNonce ∈ endedAttempts T := by
  apply List.mem_append_left
  refine List.mem_map_of_mem (List.mem_filter.mpr ⟨List.mem_filter.mpr ⟨he, ?_⟩, ?_⟩)
  · rw [hended]
    rfl
  · rw [hmark]
    rfl

theorem registerEnded_owed {id : SessionId} {nonce : Nonce} (h : Owed T id nonce) :
    nonce ∈ endedAttempts T ∨ ∃ e ∈ (T.registerEnded now).sessions, e ∈ T.sessions ∧ e.id = id ∧
      e.cfg.attemptNonce = nonce ∧ e.nonceRetired = false ∧ e.session.active = true := by
  rcases h with ⟨e, he, rfl, rfl, hnot⟩ | hmem
  · cases hactive : e.session.active with
    | false => exact .inl (mem_endedAttempts he hactive hnot)
    | true =>
      right
      refine ⟨e, ?_, he, rfl, rfl, hnot, hactive⟩
      exact List.mem_map.mpr ⟨e, he, if_pos hactive⟩
  · exact .inl (List.mem_append_right _ hmem)

theorem registered_book {h : List Turn} {t : Millis} {x : Turn} (hb : Book h t T) (ht : t ≤ now)
    (hregisters : x.registers = (endedAttempts T).map (⟨·, now⟩)) :
    Lists (registrations (h ++ [x])) now (T.registerEnded now).retiredNonces ∧
    (∀ id nonce, Held h id nonce →
      (∃ e ∈ (T.registerEnded now).sessions, e ∈ T.sessions ∧ e.id = id ∧
      e.cfg.attemptNonce = nonce ∧ e.nonceRetired = false ∧ e.session.active = true) ∨
        ∃ y ∈ registrations (h ++ [x]), y.key = nonce) ∧
    ∀ e ∈ (T.registerEnded now).sessions, e.nonceRetired = true →
      ∃ y ∈ registrations (h ++ [x]), y.key = e.cfg.attemptNonce := by
  have hnew : ∀ nonce ∈ endedAttempts T, ∃ y ∈ registrations (h ++ [x]), y.key = nonce := by
    intro nonce hnonce
    rw [registrations_snoc, hregisters]
    exact ⟨⟨nonce, now⟩, List.mem_append_right _ (List.mem_map_of_mem hnonce), rfl⟩
  have hearlier : ∀ nonce, (∃ y ∈ registrations h, y.key = nonce) →
    ∃ y ∈ registrations (h ++ [x]), y.key = nonce := by
    rintro nonce ⟨y, hy, hkey⟩
    rw [registrations_snoc]
    exact ⟨y, List.mem_append_left _ hy, hkey⟩
  refine ⟨?_, fun id nonce hheld => ?_, fun e he hmark => ?_⟩
  · rw [registrations_snoc, hregisters, registerEnded_nonces]
    exact (hb.lists.later ht).adds _
  · rcases hb.settled id nonce hheld with howed | hreg
    · exact (registerEnded_owed howed).symm.imp_right (hnew nonce)
    · exact .inr (hearlier nonce hreg)
  · obtain ⟨e₀, he₀, rfl⟩ := List.mem_map.mp he
    by_cases hactive : e₀.session.active = true
    · rw [if_pos hactive] at hmark ⊢
      exact hearlier _ (hb.marked e₀ he₀ hmark)
    · rw [if_neg hactive]
      cases hmark₀ : e₀.nonceRetired with
      | true => exact hearlier _ (hb.marked e₀ he₀ hmark₀)
      | false =>
        rw [Bool.not_eq_true] at hactive
        have hmem := mem_endedAttempts he₀ hactive hmark₀
        exact hnew _ hmem

theorem create_book {h : List Turn} {t : Millis} (hb : Book h t T) (hi : Invariant T) (ht : t ≤ now)
    (request : NewSession) (epochDraws : List U32) (nonceDraws : List Nonce) :
    Book (h ++ [⟨now, .createSession request epochDraws nonceDraws, T,
      T.perform io (.createSession request epochDraws nonceDraws) now⟩]) now
      (T.perform io (.createSession request epochDraws nonceDraws) now) := by
  have hcases := createSession_cases { T with out := [] } request epochDraws nonceDraws now
  have hperform : T.perform io (.createSession request epochDraws nonceDraws) now =
      (({ T with out := [] } : Tunnel).createSession request epochDraws nonceDraws now).2 := rfl
  generalize T.perform io (.createSession request epochDraws nonceDraws) now = T' at hperform ⊢
  generalize ({ T with out := [] } : Tunnel).createSession request epochDraws nonceDraws now =
    result at hcases hperform
  set x : Turn := ⟨now, .createSession request epochDraws nonceDraws, T, T'⟩ with hx
  cases hcases with
  | refused hrefused =>
    have hnone : x.registers = [] := by
      unfold Turn.registers
      exact if_neg (by rw [Bool.not_eq_true]; exact hrefused)
    have hsame : registrations (h ++ [x]) = registrations h := by
      rw [registrations_snoc, hnone, List.append_nil]
    subst hperform
    refine ⟨?_, settled_after rfl ?_ ?_, ?_⟩
    · rw [hsame]
      exact hb.lists.later ht
    · rw [hsame]
      exact hb.settled
    · rw [hsame]
      exact hb.marked
    · rw [hsame]
      exact hb.marked
  | undrawn hadmits =>
    have hregisters : x.registers = (endedAttempts T).map (⟨·, now⟩) := if_pos hadmits
    obtain ⟨hlists, hold, hmarked⟩ := registered_book hb ht hregisters
    subst hperform
    refine ⟨hlists,
      settled_after rfl (fun id nonce hheld => (hold id nonce hheld).imp_left ?_) hmarked, hmarked⟩
    rintro ⟨e, he, -, hid, hnonce, hmark, -⟩
    exact .inl ⟨e, he, hid, hnonce, hmark⟩
  | created epoch nonce hadmits hfree =>
    have hregisters : x.registers = (endedAttempts T).map (⟨·, now⟩) := if_pos hadmits
    obtain ⟨hlists, hold, hmarked⟩ := registered_book hb ht hregisters
    have hmarked' : ∀ e ∈ T'.sessions, e.nonceRetired = true →
        ∃ y ∈ registrations (h ++ [x]), y.key = e.cfg.attemptNonce := by
      intro e he hmark
      rw [hperform] at he
      rcases List.mem_cons.mp ((List.perm_orderedInsert _ _ _).mem_iff.mp he) with rfl | he
      · cases hmark
      · exact hmarked e (List.mem_filter.mp he).1 hmark
    refine ⟨?_, settled_after rfl (fun id nonce' hheld => (hold id nonce' hheld).imp_left ?_)
      hmarked', hmarked'⟩
    · rw [hperform]
      exact hlists
    · rintro ⟨e, he, hmem, hid, hnonce, hmark, hactive⟩
      rw [hperform]
      have hother : e.cfg.peerId ≠ request.peerId := by
        intro heq
        have hnone := (admits_iff.mp hadmits).1 e (heq ▸ find_of_mem hi.keys hmem)
        rw [hactive] at hnone
        cases hnone
      have hkept : e ∈ ((T.registerEnded now).sessions.filter (·.cfg.peerId ≠ request.peerId)) :=
        List.mem_filter.mpr ⟨he, decide_eq_true hother⟩
      exact .inl ⟨e, (List.perm_orderedInsert _ _ _).mem_iff.mpr (List.mem_cons_of_mem _ hkept),
        hid, hnonce, hmark⟩

theorem keeps_book {h : List Turn} {t : Millis} (hb : Book h t T) (ht : t ≤ now)
    (hkeeps : Keeps T T')
    (ha : ∀ request epochDraws nonceDraws, a ≠ .createSession request epochDraws nonceDraws) :
    Book (h ++ [⟨now, a, T, T'⟩]) now T' := by
  have hnone : Turn.registers ⟨now, a, T, T'⟩ = [] := by
    cases a with
    | createSession request epochDraws nonceDraws =>
      exact absurd rfl (ha request epochDraws nonceDraws)
    | onDatagram | sendData | runTimers | closeAll | leaveRoom | startPunch
      | setLocalVirtualIp | startRoster
    | setRosterPeers => rfl
  have hsame : registrations (h ++ [⟨now, a, T, T'⟩]) = registrations h := by
    rw [registrations_snoc, hnone, List.append_nil]
  have hmarked : ∀ e ∈ T'.sessions, e.nonceRetired = true →
      ∃ y ∈ registrations (h ++ [⟨now, a, T, T'⟩]), y.key = e.cfg.attemptNonce := by
    intro e he hmark
    obtain ⟨x, hx, hmark', hnonce⟩ := hkeeps.marked e he hmark
    rw [hsame, ← hnonce]
    exact hb.marked x hx hmark'
  refine ⟨?_, settled_after rfl (fun id nonce hheld => ?_) hmarked, hmarked⟩
  · rw [hsame, hkeeps.list]
    exact hb.lists.later ht
  · rw [hsame]
    exact (hb.settled id nonce hheld).imp_left (hkeeps.owed id nonce)

theorem run_book {h : List Turn} {t : Millis} (hr : Run io h t T) : Book h t T := by
  induction hr with
  | start t =>
    refine ⟨⟨fun x hx => ?_, fun x hx => ?_⟩, fun id nonce ⟨x, hx, _⟩ => ?_, fun e he => ?_⟩
    · cases hx
    · cases hx
    · cases hx
    · cases he
  | @turn h t T a now hr ht ih =>
    have hi := run_invariant hr
    by_cases hcreate : ∃ request epochDraws nonceDraws,
      a = .createSession request epochDraws nonceDraws
    · obtain ⟨request, epochDraws, nonceDraws, rfl⟩ := hcreate
      exact create_book ih hi ht request epochDraws nonceDraws
    · have ha : ∀ request epochDraws nonceDraws, a ≠ .createSession request epochDraws nonceDraws :=
        fun request epochDraws nonceDraws heq => hcreate ⟨request, epochDraws, nonceDraws, heq⟩
      exact keeps_book ih ht (perform_keeps hi ha) ha

theorem run_split {pre post : List Turn} {x : Turn} {t : Millis}
    (hr : Run io (pre ++ x :: post) t T) :
    ∃ t₀, Run io pre t₀ x.before ∧ t₀ ≤ x.now ∧ x.after = x.before.perform io x.action x.now := by
  generalize hh : pre ++ x :: post = h at hr
  induction hr generalizing post with
  | start t => exact absurd hh (by simp)
  | @turn h t T a now hr ht ih =>
    rcases List.eq_nil_or_concat post with rfl | ⟨front, last, rfl⟩
    · obtain ⟨rfl, hx⟩ := List.append_inj' hh rfl
      obtain rfl := List.singleton_inj.mp hx
      exact ⟨t, hr, ht, rfl⟩
    · rw [List.concat_eq_append, ← List.cons_append, ← List.append_assoc] at hh
      obtain ⟨hh, -⟩ := List.append_inj' hh rfl
      exact ih hh

/-- A new session never has the nonce of one that ended before, whichever way that one went and
whether or not the requests between succeeded, unless all of its registrations are two minutes old.
-/
theorem attempt_nonces_not_reused {pre post : List Turn} {x : Turn} {t : Millis}
    (hr : Run io (pre ++ x :: post) t T) {request : NewSession} {epochDraws : List U32}
    {nonceDraws : List Nonce}
    (haction : x.action = .createSession request epochDraws nonceDraws) {e : Entry}
    (he : e ∈ x.after.sessions) (hnew : e.id = x.before.nextId) {id : SessionId}
    (hheld : Held pre id e.cfg.attemptNonce)
    (hended : ∀ y ∈ x.before.sessions, y.id = id → y.session.active = false) :
    (∃ y ∈ registrations pre, y.key = e.cfg.attemptNonce) ∧
      ∀ y ∈ registrations (pre ++ [x]), y.key = e.cfg.attemptNonce →
        y.time + retiredNonceTtlMs ≤ x.now := by
  obtain ⟨t₀, hbefore, ht, hafter⟩ := run_split hr
  have hb := run_book hbefore
  have hi := run_invariant hbefore
  have hcases := createSession_cases { x.before with out := [] } request epochDraws nonceDraws x.now
  have hresult : x.after =
      (({ x.before with out := [] } : Tunnel).createSession request epochDraws nonceDraws
        x.now).2 := by
    rw [hafter, haction]
    rfl
  generalize ({ x.before with out := [] } : Tunnel).createSession request epochDraws nonceDraws
    x.now = result
    at hcases hresult
  rw [hresult] at he
  have hfresh : ∀ y ∈ x.before.sessions, y.id ≠ e.id :=
    fun y hy heq => (hi.fresh y hy).ne (heq.trans hnew)
  cases hcases with
  | refused => exact absurd rfl (hfresh e he)
  | undrawn =>
    obtain ⟨y, hy, hsame⟩ := List.mem_map.mp he
    refine absurd ?_ (hfresh y hy)
    rw [← hsame]
    exact (registered_same.id y).symm
  | created epoch nonce hadmits hfree =>
    have hregisters : x.registers = (endedAttempts x.before).map (⟨·, x.now⟩) := by
      unfold Turn.registers
      rw [haction]
      exact if_pos hadmits
    obtain ⟨hlists, -, -⟩ := registered_book (x := x) hb ht hregisters
    have hnonce : e.cfg.attemptNonce = nonce := by
      rcases List.mem_cons.mp ((List.perm_orderedInsert _ _ _).mem_iff.mp he) with rfl | he
      · rfl
      · obtain ⟨y, hy, hsame⟩ := List.mem_map.mp (List.mem_filter.mp he).1
        refine absurd ?_ (hfresh y hy)
        rw [← hsame]
        exact (registered_same.id y).symm
    rw [hnonce] at hheld ⊢
    have hexpired : ∀ y ∈ registrations (pre ++ [x]), y.key = nonce →
      y.time + retiredNonceTtlMs ≤ x.now :=
      fun y hy hkey => hlists.expired hfree hy hkey
    refine ⟨?_, hexpired⟩
    rcases hb.settled id nonce hheld with howed | hreg
    · have hmem : nonce ∈ endedAttempts x.before := by
        rcases howed with ⟨y, hy, hid, rfl, hmark⟩ | hmem
        · exact mem_endedAttempts hy (hended y hy hid) hmark
        · exact List.mem_append_right _ hmem
      -- a nonce registered by this very call cannot have been drawn
      have hnow := hexpired ⟨nonce, x.now⟩ (by
        rw [registrations_snoc, hregisters]
        exact List.mem_append_right _ (List.mem_map_of_mem hmem)) rfl
      exact absurd hnow (by unfold retiredNonceTtlMs; simp)
    · exact hreg

/-- An attempt ends, its nonce is drawn again half a minute later and refused. -/
def redrawCalls : List (Action × Millis) :=
  [(.createSession (roomRequest 2 0x0A640002) [7] [nonceOf 1], 0), (.startPunch 2, 0),
    (.runTimers, 20000),
   (.createSession (roomRequest 3 0x0A640003) [8] [nonceOf 1, nonceOf 2], 30000)]

def redrawRun : List Turn × Tunnel := play roomIo [] {} redrawCalls

def redrawAction : Action := .createSession (roomRequest 4 0x0A640004) [9] [nonceOf 1]

theorem redraw_run : Run roomIo redrawRun.1 30000 redrawRun.2 :=
  play_run redrawCalls (.start 0) (by simp [InOrder, redrawCalls])

/-- Two minutes after its registration the nonce is drawn once more. -/
theorem redraw_after_two_minutes : ∃ e ∈ (redrawRun.2.perform roomIo redrawAction 150000).sessions,
    e.cfg.attemptNonce = nonceOf 1 ∧ ∃ y ∈ registrations redrawRun.1, y.key = nonceOf 1 := by
  have hmade : ((redrawRun.2.perform roomIo redrawAction 150000).find 4).map
    (fun e => (e.id, e.cfg.attemptNonce)) =
      some (redrawRun.2.nextId, nonceOf 1) := by decide +kernel
  obtain ⟨e, hfind, heq⟩ := Option.map_eq_some_iff.mp hmade
  obtain ⟨hid, hnonce⟩ := Prod.mk.inj heq
  have hany : redrawRun.1.any
    (fun x => x.after.sessions.any fun y => y.id = 0 && y.cfg.attemptNonce = nonceOf 1) =
      true := by decide +kernel
  have hheld : Held redrawRun.1 0 e.cfg.attemptNonce := by
    obtain ⟨x, hx, hany⟩ := List.any_eq_true.mp hany
    obtain ⟨y, hy, hboth⟩ := List.any_eq_true.mp hany
    rw [Bool.and_eq_true, decide_eq_true_eq, decide_eq_true_eq] at hboth
    exact ⟨x, hx, y, hy, hboth.1, hboth.2.trans hnonce.symm⟩
  have hall : redrawRun.2.sessions.all (fun y => y.id ≠ 0 || !y.session.active) = true := by
    decide +kernel
  have hended : ∀ y ∈ redrawRun.2.sessions, y.id = 0 → y.session.active = false := by
    intro y hy hid
    have hone := List.all_eq_true.mp hall y hy
    rw [hid] at hone
    simpa using hone
  have hrun : Run roomIo
      (redrawRun.1 ++
        [⟨150000, redrawAction, redrawRun.2, redrawRun.2.perform roomIo redrawAction 150000⟩])
          150000
      (redrawRun.2.perform roomIo redrawAction 150000) := redraw_run.turn redrawAction
        150000 (by decide)
  have h := attempt_nonces_not_reused hrun rfl (find_some hfind).1 hid hheld hended
  rw [hnonce] at h
  exact ⟨e, (find_some hfind).1, hnonce, h.1⟩

end Sangtachi.Tunnel
