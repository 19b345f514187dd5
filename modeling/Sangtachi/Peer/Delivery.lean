import Sangtachi.Peer.Handshake
import Sangtachi.Peer.Notices

/-! # DATA is delivered at most once

Two sessions configured for each other, with the history of their calls. What one side hands to
its sink is what the other side was given, for each datagram at most once. -/
namespace Sangtachi.Peer

open Sangtachi.BigEndian Sangtachi.Packet Sangtachi.Replay Sangtachi.InnerIpv4

/-! ## Histories -/

/-- One call of one side; a reception names the datagram that was handed over. -/
structure NetCall where
  side : End
  op : Op
  time : Millis
  datagram : Option Sent
  before : Session
  after : Session

def Net.record (k : Link) (n : Net) (e : End) (op : Op) (T : Millis)
    (datagram : Option Sent) : NetCall :=
  ⟨e, op, T, datagram, (n e).session, step (k.config e) (k.env e) (n e).session op T⟩

/-- A run of the two sides with the calls it made. -/
inductive NetHistory (k : Link) : List NetCall → Net → Prop where
  | start (at₀ : End → Millis) : NetHistory k [] (.initial at₀)
  | call {h : List NetCall} {n : Net} (e : End) (op : Op) (T : Millis) : NetHistory k h n →
    op.packet = none →
      NetHistory k (h ++ [n.record k e op T none]) (n.call k e op T [])
  | deliver {h : List NetCall} {n : Net} (e : End) (d : Sent) (source : Endpoint) (p : RxPacket)
    (T : Millis) :
      NetHistory k h n → d ∈ (n e.other).wire → arrive d source = some p →
      NetHistory k (h ++ [n.record k e (.receive p) T (some d)]) (n.hear k e p T)

theorem NetHistory.reachable {k : Link} {h : List NetCall} {n : Net} (hh : NetHistory k h n) :
    NetReachable k n := by
  induction hh with
  | start at₀ => exact ⟨at₀, .refl⟩
  | call e op T _ hop ih =>
    obtain ⟨at₀, hrun⟩ := ih
    exact ⟨at₀, hrun.tail (.call e op T hop)⟩
  | deliver e d source p T _ hd ha ih =>
    obtain ⟨at₀, hrun⟩ := ih
    exact ⟨at₀, hrun.tail (.deliver e d source p T hd ha)⟩

/-- The call handed `inner` to the sink of its side. -/
def NetCall.Delivers (x : NetCall) (inner : List U8) : Prop := .delivered inner ∈ x.after.out

variable {k : Link} {h : List NetCall} {n : Net} {e : End}

/-! ## What a call of one side did -/

theorem mem_notices {out : List Event} {e : Event} (he : e.isNotice = true) :
    e ∈ noticesOf out ↔ e ∈ out := by
  rw [mem_noticesOf]
  exact and_iff_left he

theorem Moved.not_delivered {before after : SessionState} {moved : List Event}
    (h : Moved before after moved) (inner : List U8) :
    Event.delivered inner ∉ moved := by
  rcases h with ⟨-, rfl⟩ | ⟨-, rfl⟩
  · exact List.not_mem_nil
  · simp

theorem Moved.not_sent {before after : SessionState} {moved : List Event}
    (h : Moved before after moved) (d : Sent) :
    Event.sent d ∉ moved := by
  rcases h with ⟨-, rfl⟩ | ⟨-, rfl⟩
  · exact List.not_mem_nil
  · simp

section

variable {C : SessionConfig} {E : SessionIo} {s : Session} {op : Op} {T : Millis}

theorem delivered_by {inner : List U8} (hmem : .delivered inner ∈ (step C E s op T).out) :
    ∃ p, op = .receive p ∧ inner = p.payload ∧ Deliverable C E s p ∧
      (s.window.check p.header.sequence).accepted = true ∧
      (step C E s op T).window = (s.window.accept p.header.sequence).2 ∧
      (noticesOf (step C E s op T).out).countP (fun e => e matches .delivered _) = 1 := by
  rw [← mem_notices rfl] at hmem
  cases step_did (C := C) (E := E) (s := s) (T := T) op with
  | quiet _ hu =>
    rw [hu.notices] at hmem
    cases hmem
  | data given _ _ hsent =>
    obtain ⟨-, sent, hnotices, -⟩ := hsent
    rw [hnotices] at hmem
    simp at hmem
  | ended st _ _ _ _ _ _ hnotices =>
    rw [hnotices] at hmem
    simp at hmem
  | dropped p _ _ _ _ _ _ hnotices =>
    rw [hnotices] at hmem
    cases hmem
  | renegotiated p old moved _ _ _ _ _ _ _ _ hmoved hnotices =>
    rw [hnotices] at hmem
    simp only [noticesOf_nil, List.nil_append, List.mem_append, List.mem_singleton, reduceCtorEq,
      false_or] at hmem
    exact absurd hmem (hmoved.not_delivered inner)
  | accepted p delivered moved hop _ haccepted _ _ hwindow _ hdelivered hmoved hnotices =>
    rw [hnotices] at hmem ⊢
    simp only [noticesOf_nil, List.nil_append] at hmem ⊢
    rcases List.mem_append.mp hmem with hdel | hmov
    · rcases hdelivered with rfl | ⟨hchecked, rfl⟩
      · cases hdel
      · obtain rfl : inner = p.payload := by simpa using hdel
        refine ⟨p, hop, rfl,
          ⟨hchecked.data, hchecked.connected, hchecked.inner, hchecked.epoch, hchecked.sink⟩,
          haccepted, hwindow, ?_⟩
        rcases hmoved with ⟨-, rfl⟩ | ⟨-, rfl⟩
        · rfl
        · rfl
    · exact absurd hmov (hmoved.not_delivered inner)

theorem data_sent_by {d : Sent} (hmem : .sent d ∈ (step C E s op T).out) (hdata : d.type = .data) :
    op = .sendData d.payload := by
  rw [← mem_notices (by simp [Event.isNotice, hdata])] at hmem
  cases step_did (C := C) (E := E) (s := s) (T := T) op with
  | quiet _ hu =>
    rw [hu.notices] at hmem
    cases hmem
  | data given hop _ hsent =>
    obtain ⟨-, sent, hnotices, hall⟩ := hsent
    rw [hnotices] at hmem
    obtain ⟨d', hd', heq⟩ : ∃ d' ∈ sent, Event.sent d' = Event.sent d := by simpa using hmem
    obtain rfl := Event.sent.inj heq
    rw [hop, (hall d' hd').2]
  | ended st _ _ _ _ _ _ hnotices =>
    rw [hnotices] at hmem
    simp at hmem
  | dropped p _ _ _ _ _ _ hnotices =>
    rw [hnotices] at hmem
    cases hmem
  | renegotiated p old moved _ _ _ _ _ _ _ _ hmoved hnotices =>
    rw [hnotices] at hmem
    simp only [noticesOf_nil, List.nil_append, List.mem_append, List.mem_singleton, reduceCtorEq,
      false_or] at hmem
    exact absurd hmem (hmoved.not_sent d)
  | accepted p delivered moved _ _ _ _ _ _ _ hdelivered hmoved hnotices =>
    rw [hnotices] at hmem
    simp only [noticesOf_nil, List.nil_append] at hmem
    rcases List.mem_append.mp hmem with hdel | hmov
    · rcases hdelivered with rfl | ⟨-, rfl⟩
      · cases hdel
      · simp at hdel
    · exact absurd hmov (hmoved.not_sent d)

/-- A call moves the window by one accepted packet at most, unless the peer has begun anew. -/
theorem step_window (op : Op)
    (hpin : ∀ p, op = .receive p → s.pinned = none ∨ s.pinned = some p.header.sessionEpoch) :
    (step C E s op T).window = s.window ∨
      ∃ p, op = .receive p ∧ (step C E s op T).window = (s.window.accept p.header.sequence).2 := by
  cases step_did (C := C) (E := E) (s := s) (T := T) op with
  | quiet _ hu => exact .inl hu.window
  | data given _ _ hsent => exact .inl hsent.1.window
  | ended st _ _ _ _ hwindow _ _ => exact .inl hwindow
  | dropped p hop _ _ _ _ hwindow _ => exact .inr ⟨p, hop, hwindow⟩
  | renegotiated p old moved hop _ _ hold hne _ _ _ _ _ =>
    rcases hpin p hop with hnone | hsame
    · rw [show s.pinned = some old from hold] at hnone
      cases hnone
    · rw [show s.pinned = some old from hold] at hsame
      exact absurd (Option.some.inj hsame).symm hne
  | accepted p delivered moved hop _ _ _ _ hwindow _ _ _ _ => exact .inr ⟨p, hop, hwindow⟩

end

/-! ## Over a history -/

/-- What the side `e` has accepted so far, and that each delivery was one of these, each once. -/
structure Heard (h : List NetCall) (n : Net) (e : End) (seen : Set ℕ) : Prop where
  tracks : Tracks (n e).session.window seen
  counted : ∀ x ∈ h, x.side = e → ∀ inner, x.Delivers inner →
    ∃ d q, x.datagram = some d ∧ d.fields.sequence = BitVec.ofNat 32 q ∧ q ∈ seen
  once : ∀ (i j : ℕ) x y inner inner', h[i]? = some x → h[j]? = some y → x.side = e → y.side = e →
    x.Delivers inner → y.Delivers inner' → x.datagram = y.datagram → i = j

theorem getElem_concat {α : Type} {l : List α} {a x : α} {i : ℕ} (h : (l ++ [a])[i]? = some x) :
    l[i]? = some x ∨ i = l.length ∧ x = a := by
  rcases Nat.lt_or_ge i l.length with hlt | hge
  · rw [List.getElem?_append_left hlt] at h
    exact .inl h
  · rw [List.getElem?_append_right hge] at h
    have hi : i - l.length = 0 := by
      have := (List.getElem?_eq_some_iff.mp h).1
      simp only [List.length_singleton] at this
      omega
    rw [hi] at h
    exact .inr ⟨by omega, (Option.some.inj h).symm⟩

theorem ofNat_inj {i j : ℕ} (hi : i < 2 ^ 31) (hj : j < 2 ^ 31)
    (h : BitVec.ofNat 32 i = BitVec.ofNat 32 j) :
    i = j := by
  rw [← toNat_ofNat_small hi, ← toNat_ofNat_small hj, h]

/-- One more call that delivers nothing on the side `e`. -/
theorem Heard.silent {n' : Net} {seen seen' : Set ℕ} (hheard : Heard h n e seen) {x : NetCall}
    (hsub : seen ⊆ seen') (htracks : Tracks (n' e).session.window seen')
    (hx : x.side = e → ∀ inner, ¬x.Delivers inner) : Heard (h ++ [x]) n' e seen' where
  tracks := htracks
  counted y hy hside inner hdel := by
    rcases List.mem_append.mp hy with hold | hnew
    · obtain ⟨d, q, hd, hq, hmem⟩ := hheard.counted y hold hside inner hdel
      exact ⟨d, q, hd, hq, hsub hmem⟩
    · obtain rfl := List.mem_singleton.mp hnew
      exact absurd hdel (hx hside inner)
  once i j y z inner inner' hy hz hyside hzside hydel hzdel hsame := by
    rcases getElem_concat hy with hy | ⟨-, rfl⟩
    · rcases getElem_concat hz with hz | ⟨-, rfl⟩
      · exact hheard.once i j y z inner inner' hy hz hyside hzside hydel hzdel hsame
      · exact absurd hzdel (hx hzside inner')
    · exact absurd hydel (hx hyside inner)

/-- One more call that takes a datagram the side `e` had not accepted before. -/
theorem Heard.delivered {n' : Net} {seen : Set ℕ} (hheard : Heard h n e seen) {x : NetCall}
    {d : Sent} {q : ℕ} (hd : x.datagram = some d) (hq : d.fields.sequence = BitVec.ofNat 32 q)
    (hsmall : q < 2 ^ 31)
    (hnew : q ∉ seen) (htracks : Tracks (n' e).session.window (insert q seen)) :
    Heard (h ++ [x]) n' e (insert q seen) := by
  have hfresh : ∀ y ∈ h, y.side = e → ∀ inner, y.Delivers inner → y.datagram ≠ x.datagram := by
    intro y hy hside inner hdel hsame
    obtain ⟨d', q', hd', hq', hmem⟩ := hheard.counted y hy hside inner hdel
    rw [hd', hd] at hsame
    obtain rfl := Option.some.inj hsame
    have heq := ofNat_inj (hheard.tracks.small q' hmem) hsmall (hq'.symm.trans hq)
    exact hnew (heq ▸ hmem)
  constructor
  · exact htracks
  · intro y hy hside inner hdel
    rcases List.mem_append.mp hy with hold | hlast
    · obtain ⟨d', q', hd', hq', hmem⟩ := hheard.counted y hold hside inner hdel
      exact ⟨d', q', hd', hq', Set.mem_insert_of_mem q hmem⟩
    · obtain rfl := List.mem_singleton.mp hlast
      exact ⟨d, q, hd, hq, Set.mem_insert q seen⟩
  · intro i j y z inner inner' hy hz hyside hzside hydel hzdel hsame
    rcases getElem_concat hy with hyold | ⟨hi, hylast⟩
    · rcases getElem_concat hz with hzold | ⟨-, rfl⟩
      · exact hheard.once i j y z inner inner' hyold hzold hyside hzside hydel hzdel hsame
      · exact absurd hsame (hfresh y (List.mem_of_getElem? hyold) hyside inner hydel)
    · subst hylast
      rcases getElem_concat hz with hzold | ⟨hj, -⟩
      · exact absurd hsame.symm (hfresh z (List.mem_of_getElem? hzold) hzside inner' hzdel)
      · rw [hi, hj]

theorem call_sends (hn : NetInvariant k n) (op : Op) (T : Millis) (heard : List U32)
    (hrx : ∀ p, op.packet = some p →
      Genuine (k.config e) (k.config e.other).localEpoch (Acked k n e) ((n e).heard ++ heard) p) :
    (n e).session.sends ≤ (step (k.config e) (k.env e) (n e).session op T).sends := by
  have hmoves := step_moves (C := k.config e) (E := k.env e) (T := T) (hn.live e) op
  have hstart := (hn.faithful e).weaken id (List.subset_append_left (n e).heard heard)
  exact (moves_faithful hrx hstart hmoves).sends

theorem Heard.elsewhere {seen : Set ℕ} (hheard : Heard h n e seen) {e' : End} (hne : e ≠ e')
    (op : Op) (T : Millis) (heard : List U32) (datagram : Option Sent) :
    Heard (h ++ [n.record k e' op T datagram]) (n.call k e' op T heard) e seen := by
  have hsame : n.call k e' op T heard e = n e := Function.update_of_ne hne _ _
  refine hheard.silent (Set.Subset.refl seen) (by rw [hsame]; exact hheard.tracks) ?_
  intro hside
  exact absurd hside.symm hne

theorem Heard.received (hn : NetInvariant k n) {seen : Set ℕ} (hheard : Heard h n e seen)
    (hbound : (n e.other).session.sends < 2 ^ 31) {d : Sent} {source : Endpoint}
    {p : RxPacket} {T : Millis} (hd : d ∈ (n e.other).wire) (ha : arrive d source = some p) :
    ∃ seen', Heard (h ++ [n.record k e (.receive p) T (some d)]) (n.hear k e p T) e seen' := by
  -- the datagram carries one of the numbers the other side has used
  obtain ⟨hsent, -⟩ := hn.wire e.other d hd
  obtain ⟨q, hq, hseq⟩ := hsent.sequence
  obtain ⟨hp, -⟩ := arrive_eq hsent.built ha
  have hnumber : p.header.sequence = BitVec.ofNat 32 q := by
    rw [hp]
    exact hseq
  have hsmall : q < 2 ^ 31 := hq.trans hbound
  have hself : (n.hear k e p T e).session =
    step (k.config e) (k.env e) (n e).session (.receive p) T := by
    rw [Net.hear, call_self]
  have hpin : ∀ p', Op.receive p = .receive p' →
      (n e).session.pinned = none ∨ (n e).session.pinned = some p'.header.sessionEpoch := by
    intro p' hp'
    obtain rfl := Op.receive.inj hp'
    exact (hn.faithful e).pinned.imp id fun hsome =>
      hsome.trans (congrArg some (deliver_genuine hn hd ha).epoch.symm)
  have hwindow := step_window (C := k.config e) (E := k.env e) (s := (n e).session) (T := T) _ hpin
  by_cases haccepted : ((n e).session.window.check p.header.sequence).accepted = true
  · obtain ⟨hnew, hafter⟩ := accept_tracks hheard.tracks hsmall (hnumber ▸ haccepted)
    by_cases hdel : ∃ inner, (n.record k e (.receive p) T (some d)).Delivers inner
    · obtain ⟨inner, hdel⟩ := hdel
      obtain ⟨p', hp', -, -, -, hw, -⟩ := delivered_by hdel
      obtain rfl := Op.receive.inj hp'
      refine ⟨insert q seen, hheard.delivered rfl hseq hsmall hnew ?_⟩
      rw [hself, hw, hnumber]
      exact hafter
    · push Not at hdel
      rcases hwindow with hw | ⟨p', hp', hw⟩
      · refine ⟨seen, hheard.silent (Set.Subset.refl seen) ?_ fun _ => hdel⟩
        rw [hself, hw]
        exact hheard.tracks
      · obtain rfl := Op.receive.inj hp'
        refine ⟨insert q seen, hheard.silent (Set.subset_insert q seen) ?_ fun _ => hdel⟩
        rw [hself, hw, hnumber]
        exact hafter
  · refine ⟨seen, hheard.silent (Set.Subset.refl seen) ?_ ?_⟩
    · rw [hself]
      rcases hwindow with hw | ⟨p', hp', hw⟩
      · rw [hw]
        exact hheard.tracks
      · obtain rfl := Op.receive.inj hp'
        rw [hw, accept_rejected (by simpa using haccepted)]
        exact hheard.tracks
    · intro _ inner hdel
      obtain ⟨p', hp', -, -, hchecked, -⟩ := delivered_by hdel
      obtain rfl := Op.receive.inj hp'
      exact haccepted hchecked

/-- As long as the other side has sent fewer than `2 ^ 31` packets, each delivery is a new one. -/
theorem history_heard (hh : NetHistory k h n) (e : End)
    (hbound : (n e.other).session.sends < 2 ^ 31) :
    ∃ seen, Heard h n e seen := by
  induction hh with
  | start at₀ =>
    refine ⟨∅, ?_, fun x hx => (by cases hx), fun i j x y _ _ hx => (by simp at hx)⟩
    exact tracks_reset {}
  | @call h n e' op T hh hop ih =>
    have hn := reachable_invariant hh.reachable
    by_cases hside : e = e'
    · subst hside
      have hnot : ∀ p, op ≠ .receive p := by
        rintro p rfl
        cases hop
      have hother : n.call k e op T [] e.other = n e.other := call_other e op []
      rw [hother] at hbound
      obtain ⟨seen, hheard⟩ := ih hbound
      refine ⟨seen, hheard.silent (Set.Subset.refl seen) ?_ ?_⟩
      · rw [call_self]
        rcases step_window (C := k.config e) (E := k.env e) (s := (n e).session) (T := T) op
          (fun p hp => absurd hp (hnot p)) with hw | ⟨p, hp, -⟩
        · rw [hw]
          exact hheard.tracks
        · exact absurd hp (hnot p)
      · intro _ inner hdel
        obtain ⟨p, hp, -⟩ := delivered_by hdel
        exact hnot p hp
    · obtain rfl : e' = e.other := (eq_or_other e e').resolve_left (fun h => hside h.symm)
      have hless := call_sends hn (e := e.other) op T [] (fun p hp => by rw [hop] at hp; cases hp)
      rw [call_self] at hbound
      obtain ⟨seen, hheard⟩ := ih (hless.trans_lt hbound)
      exact ⟨seen, hheard.elsewhere hside op T [] none⟩
  | @deliver h n e' d source p T hh hd ha ih =>
    have hn := reachable_invariant hh.reachable
    by_cases hside : e = e'
    · subst hside
      have hother : n.hear k e p T e.other = n e.other := call_other e _ _
      rw [hother] at hbound
      obtain ⟨seen, hheard⟩ := ih hbound
      exact hheard.received hn hbound hd ha
    · obtain rfl : e' = e.other := (eq_or_other e e').resolve_left (fun h => hside h.symm)
      have hless :=
        call_sends hn (e := e.other) (.receive p) T [p.header.sequence] (fun p' hp' => by
        obtain rfl := Option.some.inj hp'
        exact deliver_genuine hn hd ha)
      rw [Net.hear, call_self] at hbound
      obtain ⟨seen, hheard⟩ := ih (hless.trans_lt hbound)
      exact ⟨seen, hheard.elsewhere hside (.receive p) T _ (some d)⟩

/-! ## The claim of a delivery -/

theorem wire_sent (hh : NetHistory k h n) (e : End) :
    ∀ d ∈ (n e).wire, d.ok = true ∧ ∃ y ∈ h, y.side = e ∧ .sent d ∈ y.after.out ∧
      (d.type = .data → y.op = .sendData d.payload) := by
  have added : ∀ {h : List NetCall} {n : Net} (e' : End) (op : Op) (T : Millis) (heard : List U32)
      (datagram : Option Sent),
      (∀ d ∈ (n e).wire, d.ok = true ∧ ∃ y ∈ h, y.side = e ∧ .sent d ∈ y.after.out ∧
        (d.type = .data → y.op = .sendData d.payload)) →
      ∀ d ∈ (n.call k e' op T heard e).wire, d.ok = true ∧
        ∃ y ∈ h ++ [n.record k e' op T datagram], y.side = e ∧
        .sent d ∈ y.after.out ∧ (d.type = .data → y.op = .sendData d.payload) := by
    intro h n e' op T heard datagram ih d hd
    by_cases hside : e = e'
    · subst hside
      rw [call_self] at hd
      rcases List.mem_append.mp hd with hold | hnew
      · obtain ⟨hok, y, hy, hrest⟩ := ih d hold
        exact ⟨hok, y, List.mem_append_left _ hy, hrest⟩
      · obtain ⟨hmem, hok⟩ := List.mem_filter.mp hnew
        refine ⟨hok, _, List.mem_append_right _ (List.mem_singleton_self _), rfl,
          mem_sentOf.mp hmem, fun hdata => ?_⟩
        exact data_sent_by (mem_sentOf.mp hmem) hdata
    · rw [show n.call k e' op T heard e = n e from Function.update_of_ne hside _ _] at hd
      obtain ⟨hok, y, hy, hrest⟩ := ih d hd
      exact ⟨hok, y, List.mem_append_left _ hy, hrest⟩
  induction hh with
  | start at₀ =>
    intro d hd
    cases hd
  | call e' op T _ _ ih => exact added e' op T [] none ih
  | deliver e' d source p T _ _ _ ih =>
    exact added e' (.receive p) T [p.header.sequence] (some d) ih

/-- What holds of one delivery on the side `e`. -/
structure GenuineDelivery (k : Link) (h : List NetCall) (e : End) (x : NetCall)
    (inner : List U8) : Prop where
  given : ∃ d, x.datagram = some d ∧ d.type = .data ∧ d.payload = inner ∧
    ∃ y ∈ h, y.side = e.other ∧ y.op = .sendData inner ∧ .sent d ∈ y.after.out ∧ d.ok = true
  connected : x.before.state = .connected
  packet : Ipv4Packet inner (k.config e.other).localVirtualIp (k.config e).localVirtualIp
  single : (noticesOf x.after.out).countP (fun e => e matches .delivered _) = 1

theorem history_genuine (hvip : ∀ e, (k.config e).peerVirtualIp = (k.config e.other).localVirtualIp)
    (hh : NetHistory k h n) (e : End) :
    ∀ x ∈ h, x.side = e → ∀ inner, x.Delivers inner → GenuineDelivery k h e x inner := by
  have kept : ∀ {h : List NetCall} {x : NetCall} {inner : List U8} (c : NetCall),
    GenuineDelivery k h e x inner →
      GenuineDelivery k (h ++ [c]) e x inner := by
    rintro h x inner c ⟨⟨d, hd, htype, hpayload, y, hy, hrest⟩, hconnected, hpacket, hsingle⟩
    exact ⟨⟨d, hd, htype, hpayload, y, List.mem_append_left _ hy, hrest⟩, hconnected,
      hpacket, hsingle⟩
  induction hh with
  | start at₀ =>
    intro x hx
    cases hx
  | @call h n e' op T hh hop ih =>
    intro x hx hside inner hdel
    rcases List.mem_append.mp hx with hold | hnew
    · exact kept _ (ih x hold hside inner hdel)
    · obtain rfl := List.mem_singleton.mp hnew
      obtain ⟨p, hp, -⟩ := delivered_by hdel
      rw [show op = .receive p from hp] at hop
      cases hop
  | @deliver h n e' d source p T hh hd ha ih =>
    intro x hx hside inner hdel
    rcases List.mem_append.mp hx with hold | hnew
    · exact kept _ (ih x hold hside inner hdel)
    · obtain rfl := List.mem_singleton.mp hnew
      obtain rfl : e' = e := hside
      obtain ⟨p', hp', hinner, hchecked, -, -, hsingle⟩ := delivered_by hdel
      obtain rfl := Op.receive.inj hp'
      have hn := reachable_invariant hh.reachable
      obtain ⟨hsent, -⟩ := hn.wire e'.other d hd
      obtain ⟨hpacket, htype⟩ := arrive_eq hsent.built ha
      have hdata : d.type = .data := Option.some.inj (htype.symm.trans hchecked.data)
      have hpayload : d.payload = inner := by
        rw [hinner, hpacket]
      obtain ⟨hok, y, hy, hyside, hysent, hyop⟩ := wire_sent hh e'.other d hd
      refine ⟨⟨d, rfl, hdata, hpayload, y, List.mem_append_left _ hy, hyside, ?_, hysent, hok⟩,
        hchecked.connected, ?_,
        hsingle⟩
      · rw [← hpayload]
        exact hyop hdata
      · rw [hinner, ← hvip e']
        exact checkInnerIpv4_passes.mp hchecked.inner

/-- DATA reaches the sink of a connected side as it was given to the other side, for each datagram
once at most, and is an IPv4 packet between the two. -/
theorem data_delivered_once
    (hvip : ∀ e, (k.config e).peerVirtualIp = (k.config e.other).localVirtualIp)
    (hh : NetHistory k h n) (e : End) (hbound : (n e.other).session.sends < 2 ^ 31) :
    (∀ (i j : ℕ) x y inner inner', h[i]? = some x → h[j]? = some y → x.side = e → y.side = e →
      x.Delivers inner → y.Delivers inner' → x.datagram = y.datagram → i = j) ∧
    ∀ x ∈ h, x.side = e → ∀ inner, x.Delivers inner → GenuineDelivery k h e x inner := by
  obtain ⟨seen, hheard⟩ := history_heard hh e hbound
  exact ⟨hheard.once, history_genuine hvip hh e⟩

/-! ## One inner packet, delivered twice by the network -/

/-- A call of one side, or the delivery of the datagram at a position of the other side's wire. -/
inductive NetAct where
  | call (e : End) (op : Op) (T : Millis)
  | deliver (e : End) (position : ℕ) (source : Endpoint) (T : Millis)

/-- Runs the acts that are possible and leaves out the others. -/
def playNet (k : Link) (h : List NetCall) (n : Net) : List NetAct → List NetCall × Net
  | [] => (h, n)
  | .call e op T :: rest =>
    if op.packet = none then playNet k (h ++ [n.record k e op T none]) (n.call k e op T []) rest
    else playNet k h n rest
  | .deliver e position source T :: rest =>
    match (n e.other).wire[position]? with
    | none => playNet k h n rest
    | some d =>
      match arrive d source with
      | none => playNet k h n rest
      | some p => playNet k (h ++ [n.record k e (.receive p) T (some d)]) (n.hear k e p T) rest

theorem playNet_history (acts : List NetAct) (hh : NetHistory k h n) :
    NetHistory k (playNet k h n acts).1 (playNet k h n acts).2 := by
  induction acts generalizing h n with
  | nil => exact hh
  | cons act rest ih =>
    cases act with
    | call e op T =>
      unfold playNet
      split_ifs with hop
      · exact ih (.call e op T hh hop)
      · exact ih hh
    | deliver e position source T =>
      unfold playNet
      split
      case h_1 => exact ih hh
      case h_2 d hd =>
        split
        case h_1 => exact ih hh
        case h_2 p hp => exact ih (.deliver e d source p T hh (List.mem_of_getElem? hd) hp)

/-- A bare IPv4 header from `a` to `b`. -/
def lanInner : List U8 :=
  [0x45, 0, 0, 20, 0, 0, 0, 0, 64, 17, 0x66, 0x0F, 10, 100, 0, 1, 10, 100, 0, 2]

/-- The two connect, `a` is given the packet, and its datagram arrives twice. -/
def lanDialogue : List NetAct :=
  [.call .a .startPunch 0, .call .b .startPunch 0, .deliver .b 0 (lanAddress .a) 10,
    .deliver .a 1 (lanAddress .b) 20, .deliver .a 0 (lanAddress .b) 30,
    .deliver .b 1 (lanAddress .a) 40,
    .call .a (.sendData lanInner) 50, .deliver .b 3 (lanAddress .a) 60,
    .deliver .b 3 (lanAddress .a) 70]

def lanTalk : List NetCall × Net := playNet lanLink [] (.initial fun _ => 0) lanDialogue

theorem lan_talk_history : NetHistory lanLink lanTalk.1 lanTalk.2 :=
  playNet_history lanDialogue (.start fun _ => 0)

theorem lan_data_delivered :
    (lanTalk.1.filter fun x => Event.delivered lanInner ∈ x.after.out).map NetCall.time = [60] ∧
    ∀ x ∈ lanTalk.1, x.side = .b → ∀ inner, x.Delivers inner →
      GenuineDelivery lanLink lanTalk.1 .b x inner := by
  refine ⟨by decide +kernel, ?_⟩
  exact (data_delivered_once lan_matched.vip lan_talk_history .b (by decide +kernel)).2

end Sangtachi.Peer
