import Sangtachi.Peer.Books
import Sangtachi.Peer.Deadlines
import Sangtachi.Tunnel.Positions
import Mathlib.Data.Int.Interval

/-! # Loss accounting

The figures of a session count positions on a line without end, as long as the positions fit the 64
bits they are kept in. A packet advances the window by less than `2 ^ 31` positions. -/
namespace Sangtachi.Peer

open Sangtachi.BigEndian Sangtachi.Packet Sangtachi.Replay Sangtachi.InnerIpv4

variable {C : SessionConfig} {E : SessionIo} {s s' : Session} {T : Millis} {b b' : Books} {n m : ℕ}
  {sp : Option SpecWindow}

/-- So many packets cannot use up the positions. -/
def maxCountedPackets : ℕ := 2 ^ 33

/-- The positions that were accepted under the pinned epoch. -/
def positions (sp : Option SpecWindow) : List ℤ :=
  match sp with
  | none => []
  | some w => w.accepted

def above (base : ℕ) (sp : Option SpecWindow) : ℕ :=
  (positions sp).countP fun p => decide ((base : ℤ) < p)

def Books.covered (b : Books) : ℕ :=
  match b.baseline with
  | none => 0
  | some base => b.window.position - base

/-- The books after `n` packets of the run, with the positions behind them. -/
structure Ledger (n : ℕ) (b : Books) (sp : Option SpecWindow) : Prop where
  models : Models b.window sp
  top : ∀ w, sp = some w → w.top ≤ 64 + (2 ^ 31 - 1) * n
  outside : b.baseline = none → b.accepted = 0
  inside : ∀ base, b.baseline = some base → base ≤ b.window.position ∧ b.window.initialized = true ∧
    b.accepted = above base sp
  within : b.totals.accepted ≤ b.totals.expected
  bound : b.totals.expected + b.covered ≤ (2 ^ 31 - 1) * n

theorem Ledger.mono (h : Ledger n b sp) (hle : n ≤ m) : Ledger m b sp where
  models := h.models
  top w hw := by
    have htop := h.top w hw
    omega
  outside := h.outside
  inside := h.inside
  within := h.within
  bound := h.bound.trans (Nat.mul_le_mul_left _ hle)

theorem Ledger.follows (h : Ledger n b sp) (hinit : b.window.initialized = true) :
    ∃ w, sp = some w ∧ Follows b.window w := by
  have hmodels := h.models
  generalize b.window = window at hmodels hinit
  cases hmodels with
  | fresh => cases hinit
  | running hfollows => exact ⟨_, rfl, hfollows⟩

theorem Ledger.position (h : Ledger n b sp) (hn : n ≤ maxCountedPackets) {w : SpecWindow}
    (hw : sp = some w) (hf : Follows b.window w) :
    (b.window.position : ℤ) = w.top := by
  have htop := h.top w hw
  have hstart := hf.start
  have hposition := hf.position
  unfold maxCountedPackets at hn
  omega

theorem Ledger.position_lt (h : Ledger n b sp) (hn : n ≤ maxCountedPackets)
    (hinit : b.window.initialized = true) :
    b.window.position ≤ 64 + (2 ^ 31 - 1) * n := by
  obtain ⟨w, hw, hf⟩ := h.follows hinit
  have hposition := h.position hn hw hf
  have htop := h.top w hw
  omega

/-- Distinct positions between the baseline and the highest one are no more than there are. -/
theorem countP_above_le {l : List ℤ} (hnodup : l.Nodup) {base top : ℕ} (hle : ∀ p ∈ l, p ≤ top) :
    l.countP (fun p => decide ((base : ℤ) < p)) ≤ top - base := by
  rw [List.countP_eq_length_filter, ← List.toFinset_card_of_nodup (hnodup.filter _)]
  have hsub : (l.filter fun p => decide ((base : ℤ) < p)).toFinset ⊆ Finset.Ioc (base : ℤ) top := by
    intro p hp
    rw [List.mem_toFinset, List.mem_filter, decide_eq_true_iff] at hp
    exact Finset.mem_Ioc.mpr ⟨hp.2, hle p hp.1⟩
  have hcard := Finset.card_le_card hsub
  rw [Int.card_Ioc] at hcard
  omega

theorem Ledger.accepted_le (h : Ledger n b sp) (hn : n ≤ maxCountedPackets) :
    b.accepted ≤ b.covered := by
  unfold Books.covered
  cases hb : b.baseline with
  | none => exact (h.outside hb).le
  | some base =>
    obtain ⟨-, hinit, haccepted⟩ := h.inside base hb
    obtain ⟨w, rfl, hf⟩ := h.follows hinit
    have hposition := h.position hn rfl hf
    rw [haccepted]
    exact countP_above_le hf.once fun p hp => hposition ▸ (hf.below p hp).2

theorem Ledger.loss (h : Ledger n b sp) (hn : n ≤ maxCountedPackets) :
    b.loss = ⟨b.totals.expected + b.covered, b.totals.accepted + b.accepted⟩ := by
  have haccepted := h.accepted_le hn
  have hbound := h.bound
  have hwithin := h.within
  have hfits : (2 ^ 31 - 1) * n < 2 ^ 64 := by
    unfold maxCountedPackets at hn
    omega
  unfold Books.loss
  unfold Books.covered at *
  cases hb : b.baseline with
  | none =>
    rw [h.outside hb]
    rfl
  | some base =>
    obtain ⟨hle, hinit, -⟩ := h.inside base hb
    have hposition := h.position_lt hn hinit
    rw [hb] at haccepted hbound
    dsimp only at haccepted hbound ⊢
    unfold wrapPosition maxCountedPackets at *
    congr 1
    · omega
    · omega

theorem Ledger.accepted_le_expected (h : Ledger n b sp) (hn : n ≤ maxCountedPackets) :
    b.loss.accepted ≤ b.loss.expected ∧ b.loss.lost = b.loss.expected - b.loss.accepted := by
  have haccepted := h.accepted_le hn
  have hwithin := h.within
  have hbound := h.bound
  have hloss := h.loss hn
  have hle : b.loss.accepted ≤ b.loss.expected := by
    rw [hloss]
    dsimp only
    omega
  refine ⟨hle, ?_⟩
  rw [hloss] at hle ⊢
  unfold LossStats.lost wrapPosition maxCountedPackets at *
  dsimp only at *
  omega

/-! ## Postings -/

/-- What the window accepts is a new position, not far behind the highest one, and above it by less
than `2 ^ 31`. -/
theorem Ledger.accepts (h : Ledger n b sp) (hn : n + 1 ≤ maxCountedPackets) {seq : U32}
    (haccepted : (b.window.check seq).accepted = true) :
    positions (specAccept sp seq) = ((b.window.check seq).pktPos : ℤ) :: positions sp ∧
      ∃ w', specAccept sp seq = some w' ∧ Follows (b.window.accept seq).2 w' ∧
        w'.top ≤ 64 + (2 ^ 31 - 1) * (n + 1 : ℕ) ∧
        (∀ w, sp = some w → w.top ≤ w'.top ∧ w'.top ≤ w.top + (2 ^ 31 - 1)) := by
  have hmodels := h.models
  have htop := h.top
  generalize b.window = window at hmodels haccepted ⊢
  cases hmodels with
  | fresh =>
    refine ⟨rfl, _, rfl, follows_first seq, ?_, fun w hw => by cases hw⟩
    dsimp only
    omega
  | @running _ w hf =>
    obtain ⟨hverdict, hplace⟩ := hf.check seq
    obtain ⟨hnonneg, hpos⟩ := hplace haccepted
    obtain ⟨-, -, -, hoffset⟩ := hf.offset seq
    have hbound := htop w rfl
    have hspec : (specCheck (some w) seq).accepted = true := by
      unfold SpecDecision.accepted
      unfold ReplayDecision.accepted at haccepted
      rwa [← hverdict]
    have hnext : specAccept (some w) seq =
        some ⟨w.first, max w.top (w.place seq), w.place seq :: w.accepted⟩ := by
      unfold specAccept
      dsimp only
      rw [if_pos hspec]
      rfl
    obtain ⟨w', hw', hf'⟩ := hf.accept seq
    have heq : w' = ⟨w.first, max w.top (w.place seq), w.place seq :: w.accepted⟩ := by
      rw [hnext] at hw'
      exact (Option.some.inj hw').symm
    subst heq
    have hfits : w.place seq < 2 ^ 64 := by
      unfold maxCountedPackets at hn
      omega
    refine ⟨?_, _, hnext, hf', ?_, ?_⟩
    · rw [hnext, hpos, Int.emod_eq_of_lt hnonneg hfits]
      rfl
    · dsimp only
      omega
    · rintro v hv
      obtain rfl := Option.some.inj hv
      dsimp only
      omega

theorem Ledger.record (h : Ledger n b sp) (hn : n + 1 ≤ maxCountedPackets) {seq : U32}
    (haccepted : (b.window.check seq).accepted = true) :
    Ledger (n + 1) (b.record seq) (specAccept sp seq) ∧ b.covered ≤ (b.record seq).covered ∧
      b.accepted ≤ (b.record seq).accepted := by
  obtain ⟨hpositions, w', hw', hf', htop', hgrown⟩ := h.accepts hn haccepted
  have hmono := h.mono (Nat.le_succ n)
  have hposition' : ((b.window.accept seq).2.position : ℤ) = w'.top := by
    have hposition := hf'.position
    have hstart := hf'.start
    unfold maxCountedPackets at hn
    omega
  have habove : ∀ base, b.baseline = some base →
    (b.record seq).accepted = above base (specAccept sp seq) := by
    intro base hb
    obtain ⟨hle, hinit, hcount⟩ := h.inside base hb
    have hfits := h.accepted_le (by omega)
    have hbound := h.bound
    unfold above at hcount ⊢
    rw [hpositions, List.countP_cons, ← hcount]
    unfold Books.record
    dsimp only
    rw [haccepted, hb]
    simp only [Option.any_some, Bool.true_and, decide_eq_true_eq, Nat.cast_lt]
    split
    · unfold wrapPosition maxCountedPackets at *
      omega
    · rfl
  have hcovered : ∀ base, b.baseline = some base → base ≤ b.window.position ∧
      b.window.position ≤ (b.window.accept seq).2.position ∧
        (b.window.accept seq).2.position ≤ b.window.position + (2 ^ 31 - 1) := by
    intro base hb
    obtain ⟨hle, hinit, -⟩ := h.inside base hb
    obtain ⟨w, hw, hf⟩ := h.follows hinit
    have hposition := h.position (by omega) hw hf
    obtain ⟨hup, hstep⟩ := hgrown w hw
    exact ⟨hle, by omega, by omega⟩
  have hsection : (b.record seq).covered = match b.baseline with
      | none => 0
      | some base => (b.window.accept seq).2.position - base := rfl
  refine ⟨⟨?_, ?_, ?_, ?_, h.within, ?_⟩, ?_, ?_⟩
  · rw [hw']
    exact .running hf'
  · intro w hw
    rw [hw'] at hw
    obtain rfl := Option.some.inj hw
    exact htop'
  · intro hb
    have hb' : b.baseline = none := hb
    have hzero := h.outside hb'
    unfold Books.record
    dsimp only
    rw [hb', Option.any_none, Bool.and_false, if_neg (by decide), hzero]
  · intro base hb
    have hb' : b.baseline = some base := hb
    obtain ⟨hle, hup, -⟩ := hcovered base hb'
    exact ⟨hle.trans hup, hf'.begun, habove base hb'⟩
  · have hbound := h.bound
    have htotals : (b.record seq).totals = b.totals := rfl
    rw [hsection, htotals]
    unfold Books.covered at hbound
    cases hb : b.baseline with
    | none =>
      rw [hb] at hbound
      dsimp only at hbound ⊢
      omega
    | some base =>
      obtain ⟨hle, hup, hstep⟩ := hcovered base hb
      rw [hb] at hbound
      dsimp only at hbound ⊢
      omega
  · rw [hsection]
    unfold Books.covered
    cases hb : b.baseline with
    | none => exact Nat.le_refl _
    | some base =>
      obtain ⟨-, hup, -⟩ := hcovered base hb
      exact Nat.sub_le_sub_right hup base
  · cases hb : b.baseline with
    | none =>
      rw [h.outside hb]
      exact Nat.zero_le _
    | some base =>
      rw [habove base hb, (h.inside base hb).2.2]
      unfold above
      rw [hpositions, List.countP_cons]
      exact Nat.le_add_right _ _

theorem Ledger.enter (h : Ledger n b sp) (hn : n ≤ maxCountedPackets)
    (hinit : b.window.initialized = true) (hb : b.baseline = none) :
    Ledger n b.enter sp ∧ (∀ p ∈ positions sp, p ≤ (b.window.position : ℤ)) := by
  obtain ⟨w, rfl, hf⟩ := h.follows hinit
  have hposition := h.position hn rfl hf
  have hbelow : ∀ p ∈ positions (some w), p ≤ (b.window.position : ℤ) :=
    fun p hp => hposition ▸ (hf.below p hp).2
  have hbound := h.bound
  unfold Books.covered at hbound
  rw [hb] at hbound
  refine ⟨⟨h.models, h.top, fun hnone => (by cases hnone), ?_, h.within, ?_⟩, hbelow⟩
  · intro base hbase
    obtain rfl := Option.some.inj hbase
    refine ⟨Nat.le_refl _, hinit, ?_⟩
    have hzero : b.enter.accepted = 0 := rfl
    unfold above
    rw [hzero, eq_comm, List.countP_eq_zero]
    intro p hp
    simpa using hbelow p hp
  · have hzero : b.enter.covered = 0 := Nat.sub_self _
    rw [hzero]
    exact hbound

theorem Ledger.reset (h : Ledger n b sp) (hn : n ≤ maxCountedPackets) :
    Ledger n b.reset none ∧ b.reset.loss = b.loss := by
  have hloss := h.loss hn
  have haccepted := h.accepted_le hn
  have hwithin := h.within
  have htotals : b.reset.totals = b.loss := by
    unfold Books.reset
    dsimp only
    cases hb : b.baseline with
    | none =>
      unfold Books.loss
      rw [hb]
      rfl
    | some base => rfl
  have hzero : b.reset.accepted = 0 := by
    unfold Books.reset
    dsimp only
    cases hb : b.baseline with
    | none => exact h.outside hb
    | some base => rfl
  refine ⟨⟨.fresh, fun w hw => (by cases hw), fun _ => hzero, fun base hb => (by cases hb),
    ?_, ?_⟩, htotals⟩
  · rw [htotals, hloss]
    exact Nat.add_le_add hwithin haccepted
  · rw [htotals, hloss]
    exact h.bound

/-! ## Runs -/

def receives (h : List Entry) : ℕ := h.countP fun e => e.op.packet.isSome

/-- Neither figure has gone down. -/
def LossStats.Grown (l l' : LossStats) : Prop := l.expected ≤ l'.expected ∧ l.accepted ≤ l'.accepted

theorem LossStats.Grown.trans {l₁ l₂ l₃ : LossStats} (h : l₁.Grown l₂) (k : l₂.Grown l₃) :
    l₁.Grown l₃ :=
  ⟨h.1.trans k.1, h.2.trans k.2⟩

theorem LossStats.Grown.refl (l : LossStats) : l.Grown l := ⟨Nat.le_refl _, Nat.le_refl _⟩

theorem Ledger.grown (h : Ledger n b sp) (hn : n ≤ maxCountedPackets) {sp' : Option SpecWindow}
    (h' : Ledger m b' sp') (hm : m ≤ maxCountedPackets) (htotals : b'.totals = b.totals)
    (hcovered : b.covered ≤ b'.covered) (haccepted : b.accepted ≤ b'.accepted) :
    b.loss.Grown b'.loss := by
  rw [h.loss hn, h'.loss hm, htotals]
  exact ⟨Nat.add_le_add_left hcovered _, Nat.add_le_add_left haccepted _⟩

theorem Ledger.record_grown (h : Ledger n b sp) (hn : n + 1 ≤ maxCountedPackets) {seq : U32}
    (haccepted : (b.window.check seq).accepted = true) : b.loss.Grown (b.record seq).loss := by
  obtain ⟨h', hcovered, haccepted'⟩ := h.record hn haccepted
  exact h.grown (by omega) h' hn rfl hcovered haccepted'

theorem Ledger.enter_loss (h : Ledger n b sp) (hn : n ≤ maxCountedPackets)
    (hinit : b.window.initialized = true) (hb : b.baseline = none) :
    b.enter.loss = b.totals ∧ b.loss = b.totals := by
  have h' := (h.enter hn hinit hb).1
  have hzero : b.enter.covered = 0 := Nat.sub_self _
  constructor
  · rw [h'.loss hn, hzero]
    rfl
  · unfold Books.loss
    rw [hb]

theorem Posted.ledger {position : Option ℕ} (hp : Posted s s' position) (h : Ledger n s.books sp)
    (hn : n + 1 ≤ maxCountedPackets) : (∃ sp', Ledger (n + 1) s'.books sp') ∧
    s.loss.Grown s'.loss := by
  rw [loss_books, loss_books]
  cases hp with
  | kept hbooks =>
    rw [hbooks]
    exact ⟨⟨sp, h.mono (Nat.le_succ n)⟩, .refl _⟩
  | recorded seq _ haccepted hbooks =>
    rw [hbooks]
    exact ⟨⟨_, (h.record hn haccepted).1⟩, h.record_grown hn haccepted⟩
  | entered seq _ haccepted hnone hbooks =>
    have hrecord := (h.record hn haccepted).1
    have hinit : (s.books.record seq).window.initialized = true := (accept_highest haccepted).1
    obtain ⟨hentered, hkept⟩ := hrecord.enter_loss hn hinit hnone
    rw [hbooks, hentered, ← hkept]
    exact ⟨⟨_, (hrecord.enter hn hinit hnone).1⟩, h.record_grown hn haccepted⟩
  | restarted seq _ hbooks =>
    obtain ⟨hreset, hloss⟩ := h.reset (by omega)
    have haccepted : (s.books.reset.window.check seq).accepted = true := rfl
    rw [hbooks, ← hloss]
    exact ⟨⟨_, (hreset.record hn haccepted).1⟩, hreset.record_grown hn haccepted⟩

theorem receives_append (h : List Entry) (e : Entry) :
    receives (h ++ [e]) = receives h + if e.op.packet.isSome then 1 else 0 := by
  unfold receives
  rw [List.countP_append, List.countP_singleton]

theorem step_ledger (hs : InSection s) (hr : Live s ∨ ∃ st, Ended s st) {op : Op}
    (h : Ledger n s.books sp) (hn : n + (if op.packet.isSome then 1 else 0) ≤ maxCountedPackets) :
    (∃ sp', Ledger (n + if op.packet.isSome then 1 else 0) (step C E s op T).books sp') ∧
      s.loss.Grown (step C E s op T).loss := by
  have hposted := (step_books (C := C) (E := E) (T := T) hs hr op).1
  cases hop : op.packet with
  | none =>
    have hkept := step_kept (C := C) (E := E) (s := s) (T := T) hop
    rw [loss_books, loss_books, hkept]
    exact ⟨⟨sp, h⟩, .refl _⟩
  | some p =>
    rw [hop] at hn
    exact hposted.ledger h hn

theorem execution_ledger {h : List Entry} {t : Millis} (hx : Execution C E h t s)
    (hbound : receives h ≤ maxCountedPackets) : (∃ sp, Ledger (receives h) s.books sp) ∧
    InSection s := by
  induction hx with
  | start t =>
    refine ⟨⟨none, .fresh, fun w hw => (by cases hw), fun _ => rfl, fun base hb => (by cases hb),
      Nat.le_refl _,
      Nat.zero_le _⟩, fun _ => ?_⟩
    exact ⟨fun h => (by cases h), fun h => (by cases h)⟩
  | call op now hx hle ih =>
    rw [receives_append] at hbound ⊢
    obtain ⟨⟨sp, h⟩, hs⟩ := ih (by omega)
    have hr := execution_live_or_ended hx
    exact ⟨(step_ledger hs hr h hbound).1, (step_books hs hr op).2⟩

theorem cut_last {h h₁ h₂ : List Entry} {e x : Entry} (heq : h ++ [x] = h₁ ++ e :: h₂) :
    h₂ = [] ∧ h = h₁ ∧ x = e ∨ ∃ h₃, h₂ = h₃ ++ [x] ∧ h = h₁ ++ e :: h₃ := by
  rcases List.eq_nil_or_concat h₂ with rfl | ⟨h₃, y, rfl⟩
  · obtain ⟨hh, hx⟩ := List.append_inj' heq rfl
    exact .inl ⟨rfl, hh, (List.cons.inj hx).1⟩
  · rw [List.concat_eq_append] at heq ⊢
    rw [← List.cons_append, ← List.append_assoc] at heq
    obtain ⟨hh, hx⟩ := List.append_inj' heq rfl
    obtain rfl := (List.cons.inj hx).1
    exact .inr ⟨h₃, rfl, hh⟩

theorem execution_grown {h : List Entry} {t : Millis} (hx : Execution C E h t s)
    (hbound : receives h ≤ maxCountedPackets) :
    ∀ h₁ e h₂, h = h₁ ++ e :: h₂ → e.before.loss.Grown e.after.loss ∧
      e.after.loss.Grown s.loss := by
  induction hx with
  | start t =>
    intro h₁ e h₂ heq
    cases h₁ <;> cases heq
  | call op now hx hle ih =>
    intro h₁ e h₂ heq
    rw [receives_append] at hbound
    obtain ⟨⟨sp, h⟩, hs⟩ := execution_ledger hx (by omega)
    have hstep :=
      (step_ledger (C := C) (E := E) (T := now) hs (execution_live_or_ended hx) h hbound).2
    rcases cut_last heq with ⟨-, -, rfl⟩ | ⟨h₃, -, rfl⟩
    · exact ⟨hstep, .refl _⟩
    · obtain ⟨hfirst, hrest⟩ := ih (by omega) h₁ e h₃ rfl
      exact ⟨hfirst, hrest.trans hstep⟩

theorem execution_frozen {h : List Entry} {t : Millis} (hx : Execution C E h t s) :
    ∀ h₁ e h₂, h = h₁ ++ e :: h₂ → e.after.active = false →
      s.active = false ∧ s.books = e.after.books := by
  induction hx with
  | start t =>
    intro h₁ e h₂ heq
    cases h₁ <;> cases heq
  | @call h t s op now hx hle ih =>
    intro h₁ e h₂ heq hended
    rcases cut_last heq with ⟨-, -, rfl⟩ | ⟨h₃, -, rfl⟩
    · exact ⟨hended, rfl⟩
    · obtain ⟨hactive, hbooks⟩ := ih h₁ e h₃ rfl hended
      rcases execution_live_or_ended hx with hl | ⟨st, he⟩
      · rw [active_of_live hl.terminal] at hactive
        cases hactive
      · refine ⟨not_active_of_ended (step_ended he op).1, ?_⟩
        rw [← hbooks]
        cases hop : op.packet with
        | none => exact step_kept hop
        | some p =>
          cases op with
          | receive q => exact (inactive_receives (not_active_of_ended he) q).1
          | _ => cases hop

/-! ## Sections -/

/-- The positions that the window accepted in these calls. -/
def acceptedIn (C : SessionConfig) (E : SessionIo) (h : List Entry) : List ℕ :=
  h.filterMap fun e => acceptedPosition C E e.before e.now e.op

/-- The section that began in the call `e` goes on: its positions are those accepted since. -/
structure SectionHolds (C : SessionConfig) (E : SessionIo) (n : ℕ) (e : Entry) (later : List Entry)
    (s : Session) :
    Prop where
  baseline : s.lossBaseline = some e.after.window.position
  totals : s.lossTotals = e.after.lossTotals
  begun : e.after.loss = e.after.lossTotals
  ledger : ∃ sp old, Ledger n s.books sp ∧
    positions sp = (acceptedIn C E later).reverse.map Int.ofNat ++ old ∧
    ∀ p ∈ old, p ≤ (e.after.window.position : ℤ)

theorem section_begins (hs : InSection s) (hr : Live s ∨ ∃ st, Ended s st) {op : Op}
    (h : Ledger n s.books sp) (hn : n + (if op.packet.isSome then 1 else 0) ≤ maxCountedPackets)
    (hbefore : s.state ≠ .connected) (hafter : (step C E s op T).state = .connected) :
    SectionHolds C E (n + if op.packet.isSome then 1 else 0) ⟨T, op, s, step C E s op T⟩ []
    (step C E s op T) := by
  have hposted := (step_books (C := C) (E := E) (T := T) hs hr op).1
  have hlive : s.terminal = none := by
    rcases hr with hl | ⟨st, he⟩
    · exact hl.terminal
    · have hended := (step_ended (C := C) (E := E) (T := T) he op).1
      rw [state_of_terminal hended.terminal] at hafter
      rcases hended.isTerminal with rfl | rfl <;> cases hafter
  have hnone : s.lossBaseline = none := by
    cases hb : s.lossBaseline with
    | none => rfl
    | some base => exact absurd ((hs hlive).mp (by rw [hb]; rfl)) hbefore
  have hsection := (step_books (C := C) (E := E) (T := T) hs hr op).2
  have hlive' : (step C E s op T).terminal = none := by
    cases hterminal : (step C E s op T).terminal with
    | none => rfl
    | some st =>
      rcases step_control (C := C) (E := E) (T := T) hr op with hl | ⟨st', he⟩
      · rw [hl.terminal] at hterminal
        cases hterminal
      · rw [state_of_terminal he.terminal] at hafter
        rcases he.isTerminal with rfl | rfl <;> cases hafter
  have hsome : (step C E s op T).lossBaseline.isSome = true := (hsection hlive').mpr hafter
  have hkeptFalse : (step C E s op T).lossBaseline = s.lossBaseline → False := by
    intro heq
    rw [heq, hnone] at hsome
    cases hsome
  cases hop : op.packet with
  | none => exact (hkeptFalse (congrArg Books.baseline (step_kept hop))).elim
  | some p =>
    rw [hop] at hn
    generalize acceptedPosition C E s T op = position at hposted
    cases hposted with
    | kept hbooks => exact (hkeptFalse (congrArg Books.baseline hbooks)).elim
    | recorded seq _ _ hbooks => exact (hkeptFalse (congrArg Books.baseline hbooks)).elim
    | entered seq _ haccepted _ hbooks =>
      have hrecord := (h.record hn haccepted).1
      have hinit : (s.books.record seq).window.initialized = true := (accept_highest haccepted).1
      obtain ⟨hentered, hbelow⟩ := hrecord.enter hn hinit hnone
      have hwindow : (step C E s op T).window.position = (s.books.record seq).window.position :=
        congrArg (fun b => b.window.position) hbooks
      refine ⟨?_, rfl, ?_, specAccept sp seq, positions (specAccept sp seq), ?_, rfl, ?_⟩
      · have hbaseline : (step C E s op T).lossBaseline =
          some (s.books.record seq).window.position :=
          congrArg Books.baseline hbooks
        rw [hbaseline]
        exact congrArg some hwindow.symm
      · rw [loss_books, hbooks, (hrecord.enter_loss hn hinit hnone).1]
        exact (congrArg Books.totals hbooks).symm
      · rw [hbooks]
        exact hentered
      · intro p hp
        show p ≤ ((step C E s op T).window.position : ℤ)
        rw [hwindow]
        exact hbelow p hp
    | restarted seq _ _ _ hstate => exact absurd hafter hstate

theorem SectionHolds.step {e : Entry} {later : List Entry} (h : SectionHolds C E n e later s)
    (hs : InSection s) (hr : Live s ∨ ∃ st, Ended s st) {op : Op}
    (hn : n + (if op.packet.isSome then 1 else 0) ≤ maxCountedPackets)
    (hafter : (step C E s op T).state = .connected ∨ (step C E s op T).active = false) :
    SectionHolds C E (n + if op.packet.isSome then 1 else 0) e
      (later ++ [⟨T, op, s, step C E s op T⟩])
      (step C E s op T) := by
  have hposted := (step_books (C := C) (E := E) (T := T) hs hr op).1
  obtain ⟨hbaseline, htotals, hbegun, sp, old, hledger, hpositions, hold⟩ := h
  have hlater : acceptedIn C E (later ++ [⟨T, op, s, Peer.step C E s op T⟩]) =
      acceptedIn C E later ++ (acceptedPosition C E s T op).toList := by
    unfold acceptedIn
    rw [List.filterMap_append]
    congr 1
  have hkept : ∀ m, n ≤ m → (Peer.step C E s op T).books = s.books →
    acceptedPosition C E s T op = none →
      SectionHolds C E m e (later ++ [⟨T, op, s, Peer.step C E s op T⟩])
        (Peer.step C E s op T) := by
    intro m hle hbooks hnone
    refine ⟨(congrArg Books.baseline hbooks).trans hbaseline,
      (congrArg Books.totals hbooks).trans htotals, hbegun,
      sp, old, ?_, ?_, hold⟩
    · rw [hbooks]
      exact hledger.mono hle
    · rw [hlater, hnone, hpositions]
      simp
  cases hop : op.packet with
  | none =>
    have hnone : acceptedPosition C E s T op = none := by
      cases op <;> first | rfl | cases hop
    exact hkept n (Nat.le_refl n) (step_kept hop) hnone
  | some p =>
    rw [hop] at hn
    generalize hposition : acceptedPosition C E s T op = position at hposted
    cases hposted with
    | kept hbooks => exact hkept (n + 1) (Nat.le_succ n) hbooks hposition
    | recorded seq _ haccepted hbooks =>
      refine ⟨(congrArg Books.baseline hbooks).trans hbaseline,
        (congrArg Books.totals hbooks).trans htotals, hbegun,
        specAccept sp seq, old, ?_, ?_, hold⟩
      · rw [hbooks]
        exact (hledger.record hn haccepted).1
      · have hnew := (hledger.accepts hn haccepted).1
        rw [hlater, hposition, hnew, hpositions, List.reverse_append]
        rfl
    | entered seq _ _ hnone => 
      rw [hbaseline] at hnone
      cases hnone
    | restarted seq _ _ hterminal hstate =>
      rcases hafter with hc | hended
      · exact absurd hc hstate
      · rw [active_of_live hterminal] at hended
        cases hended

theorem execution_section {h : List Entry} {t : Millis} (hx : Execution C E h t s)
    (hbound : receives h ≤ maxCountedPackets) :
    ∀ h₁ e h₂, h = h₁ ++ e :: h₂ → e.before.state ≠ .connected → e.after.state = .connected →
      (∀ x ∈ h₂, x.before.state = .connected) → s.state = .connected ∨ s.active = false →
      SectionHolds C E (receives h) e h₂ s := by
  induction hx with
  | start t =>
    intro h₁ e h₂ heq
    cases h₁ <;> cases heq
  | @call h t s op now hx hle ih =>
    intro h₁ e h₂ heq hbefore hafter hall hlast
    rw [receives_append] at hbound ⊢
    obtain ⟨⟨sp, hledger⟩, hs⟩ := execution_ledger hx (by omega)
    have hr := execution_live_or_ended hx
    rcases cut_last heq with ⟨rfl, -, rfl⟩ | ⟨h₃, rfl, rfl⟩
    · exact section_begins hs hr hledger hbound hbefore hafter
    · have hconnected : s.state = .connected :=
        hall _ (List.mem_append_right _ (List.mem_singleton.mpr rfl))
      have hheld := ih (by omega) h₁ e h₃ rfl hbefore hafter
        (fun x hx => hall x (List.mem_append_left _ hx)) (.inl hconnected)
      exact hheld.step hs hr hbound hlast

theorem SectionHolds.figures {e : Entry} {later : List Entry} (h : SectionHolds C E n e later s)
    (hn : n ≤ maxCountedPackets) :
    s.loss.accepted = e.after.loss.accepted +
        ((acceptedIn C E later).filter fun p =>
          decide (e.after.window.position < p)).toFinset.card ∧
      s.loss.expected = e.after.loss.expected + (s.window.position - e.after.window.position) := by
  obtain ⟨hbaseline, htotals, hbegun, sp, old, hledger, hpositions, hold⟩ := h
  have hcovered : s.books.covered = s.window.position - e.after.window.position := by
    unfold Books.covered
    rw [show s.books.baseline = some e.after.window.position from hbaseline]
    rfl
  obtain ⟨-, hinit, haccepted⟩ := hledger.inside _ hbaseline
  obtain ⟨w, rfl, hf⟩ := hledger.follows hinit
  have hnodup : (acceptedIn C E later).Nodup := by
    have hall := hf.once
    rw [show w.accepted = _ from hpositions] at hall
    exact List.nodup_reverse.mp (List.Nodup.of_map _ (List.nodup_append.mp hall).1)
  have hcount : s.books.accepted =
      ((acceptedIn C E later).filter fun p =>
        decide (e.after.window.position < p)).toFinset.card := by
    have hzero : old.countP (fun p => decide ((e.after.window.position : ℤ) < p)) = 0 := by
      rw [List.countP_eq_zero]
      intro p hp
      simpa using hold p hp
    rw [haccepted, List.toFinset_card_of_nodup (hnodup.filter _), ← List.countP_eq_length_filter]
    unfold above
    rw [hpositions, List.countP_append, hzero, Nat.add_zero, List.countP_map, List.countP_reverse]
    congr 1
    funext p
    simp
  rw [loss_books s, hledger.loss hn, hbegun]
  have htotals' : s.books.totals = e.after.lossTotals := htotals
  rw [htotals', hcount, hcovered]
  exact ⟨rfl, rfl⟩

/-- As long as no more packets come in than the positions of 64 bits allow for, the session accepts
no more than it expects, no figure goes down, a section counts its distinct positions, and the
figures of a session that has ended stay. -/
theorem loss_accounting {h : List Entry} {t : Millis} (hx : Execution C E h t s)
    (hbound : receives h ≤ maxCountedPackets) :
    s.loss.accepted ≤ s.loss.expected ∧ s.loss.lost = s.loss.expected - s.loss.accepted ∧
    ∀ h₁ e h₂, h = h₁ ++ e :: h₂ →
      e.before.loss.Grown e.after.loss ∧ e.after.loss.Grown s.loss ∧
      (e.after.active = false → s.loss = e.after.loss) ∧
      (e.before.state ≠ .connected → e.after.state = .connected →
        (∀ x ∈ h₂, x.before.state = .connected) →
        s.state = .connected ∨ s.active = false →
        s.loss.accepted = e.after.loss.accepted +
            ((acceptedIn C E h₂).filter fun p =>
              decide (e.after.window.position < p)).toFinset.card ∧
          s.loss.expected =
            e.after.loss.expected + (s.window.position - e.after.window.position)) := by
  obtain ⟨⟨sp, hledger⟩, -⟩ := execution_ledger hx hbound
  obtain ⟨hle, hlost⟩ := hledger.accepted_le_expected hbound
  refine ⟨hle, hlost, fun h₁ e h₂ heq => ?_⟩
  obtain ⟨hstep, hrest⟩ := execution_grown hx hbound h₁ e h₂ heq
  refine ⟨hstep, hrest, fun hended => ?_, fun hbefore hafter hall hlast => ?_⟩
  · exact congrArg Books.loss (execution_frozen hx h₁ e h₂ heq hended).2
  · exact (execution_section hx hbound h₁ e h₂ heq hbefore hafter hall hlast).figures hbound

theorem roam_loss : roamEnd.loss.accepted ≤ roamEnd.loss.expected ∧
    roamEnd.loss = { expected := 2, accepted := 2 } :=
  ⟨(loss_accounting roam_execution (by decide +kernel)).1, by decide +kernel⟩

/-! ## More packets than the positions allow for

A peer whose numbers advance by `2 ^ 31 - 1` each time uses up the positions with a little over
`2 ^ 33` packets. -/

theorem receive_keepalive {p : RxPacket} (htype : p.type = some .keepalive)
    (hlive : s.terminal = none) (hc : s.state = .connected)
    (hpinned : s.pinned = some p.header.sessionEpoch)
    (hendpoint : s.peerEndpoint = some p.source)
    (hadv : (s.window.check p.header.sequence).verdict = .advance) :
    (receive C E s p T).2 = { recorded s p with idle := arm T idleTimeoutMs } := by
  have hactive := active_of_live hlive
  have hrecord : recordPacket s p.header.sequence =
    (s.window.check p.header.sequence, recorded s p) := rfl
  have hstate : (recorded s p).state = .connected := hc
  have hcheck : checkEpoch C E s p T = (s, .ok .other) := by
    unfold checkEpoch
    rw [htype]
    dsimp only
    rw [hpinned]
    dsimp only
    rw [if_neg (not_not.mpr rfl)]
  have hbody : checkType C (recorded s p) p T = (recorded s p, .ok .bare) := by
    unfold checkType
    rw [htype]
  have hpin : pin (recorded s p) p.header.sessionEpoch = recorded s p := by
    unfold pin
    rw [show (recorded s p).pinned = some p.header.sessionEpoch from hpinned]
    exact if_neg Bool.false_ne_true
  have hlearn : learnSource C (recorded s p) p .other (s.window.check p.header.sequence) =
    (false, recorded s p) := by
    unfold learnSource learn isVerified
    dsimp only
    rw [show (recorded s p).peerEndpoint = some p.source from hendpoint]
    simp [ReplayDecision.advanced, hadv]
  unfold receive receivePassed
  rw [hactive, Bool.not_true, if_neg (by decide), hcheck]
  dsimp only
  rw [hrecord]
  dsimp only
  rw [hadv, hbody]
  dsimp only
  rw [if_neg (show ¬ EpochPass.other.renegotiated = true from Bool.false_ne_true)]
  unfold applyEffects
  rw [hpin, hlearn, hstate]
  dsimp only [act, actOther, raiseSource, renewIdle]
  rw [if_pos rfl, if_neg (by decide)]
  have hsettle : settle C E { recorded s p with idle := arm T idleTimeoutMs } .connected T =
      { recorded s p with idle := arm T idleTimeoutMs } := by
    unfold settle
    exact if_pos hstate
  rw [hsettle]
  rfl

/-- A KEEPALIVE with a newer number moves the window to it, and counts if its position is above the
baseline. -/
theorem step_newer {p : RxPacket} {b next : ℕ} {t : Millis} (hinit : s.window.initialized = true)
    (hnewer : isNewer p.header.sequence s.window.highest = true) (htype : p.type = some .keepalive)
    (hlive : s.terminal = none) (hacks : s.gotAck = true ∧ s.sentAck = true)
    (hpinned : s.pinned = some p.header.sessionEpoch) (hendpoint : s.peerEndpoint = some p.source)
    (hbaseline : s.lossBaseline = some b)
    (hnext : wrapPosition (s.window.position + (p.header.sequence - s.window.highest).toNat) = next)
      :
    step C E s (.receive p) t =
        { recorded { s with out := [] } p with idle := arm t idleTimeoutMs } ∧
      ((recorded { s with out := [] } p).window.initialized = true ∧
        (recorded { s with out := [] } p).window.highest = p.header.sequence ∧
        (recorded { s with out := [] } p).window.position = next) ∧
      (recorded { s with out := [] } p).lossAccepted =
        if b < next then wrapPosition (s.lossAccepted + 1) else s.lossAccepted := by
  have hne : p.header.sequence ≠ s.window.highest := by
    intro heq
    rw [heq] at hnewer
    simp [isNewer] at hnewer
  have hcheck : s.window.check p.header.sequence =
      { verdict := .advance
        seq := p.header.sequence
        distance := p.header.sequence - s.window.highest
        pktPos := next } := by
    unfold ReplayWindow.check
    rw [if_neg (by simp [hinit]), if_neg hne, if_pos hnewer]
    dsimp only
    rw [hnext]
  have haccepted : (s.window.check p.header.sequence).accepted = true := by
    rw [hcheck]
    rfl
  have hposition : (s.window.accept p.header.sequence).2.position = next := by
    rw [accept_newer_position hinit hnewer, hnext]
  have hcommit : (s.window.accept p.header.sequence).2.initialized = true ∧
      (s.window.accept p.header.sequence).2.highest = p.header.sequence := by
    have hcases := accept_cases haccepted
    generalize (s.window.accept p.header.sequence).2 = w at hcases
    cases hcases with
    | begun hfresh => rw [hinit] at hfresh; cases hfresh
    | advanced position _ _ => exact ⟨rfl, rfl⟩
    | filled _ _ hnot _ _ => exact absurd hnewer hnot
  have hcounted : ((s.window.check p.header.sequence).accepted &&
      s.lossBaseline.any (· < (s.window.check p.header.sequence).pktPos)) = decide (b < next) := by
    rw [hcheck, hbaseline]
    rfl
  refine ⟨?_, ⟨hcommit.1, hcommit.2, hposition⟩, ?_⟩
  · apply receive_keepalive (s := { s with out := [] }) htype hlive
    · exact (state_connected_iff (s := { s with out := [] }) hlive).mpr hacks
    · exact hpinned
    · exact hendpoint
    · exact congrArg ReplayDecision.verdict hcheck
  · have hrecorded : (recorded { s with out := [] } p).lossAccepted =
        if ((s.window.check p.header.sequence).accepted &&
          s.lossBaseline.any (· < (s.window.check p.header.sequence).pktPos)) = true then
          wrapPosition (s.lossAccepted + 1) else s.lossAccepted := rfl
    rw [hrecorded, hcounted]
    simp only [decide_eq_true_eq]

def floodSequence (k : ℕ) : U32 := BitVec.ofNat 32 (2 + (2 ^ 31 - 1) * k)

def floodPosition (k : ℕ) : ℕ := wrapPosition (65 + (2 ^ 31 - 1) * k)

def floodPacket (k : ℕ) : RxPacket where
  header := headerOf .keepalive ⟨2, 9, floodSequence k⟩ []
  payload := []
  source := roamHome

/-- The peer connects and sends `k` packets. -/
def flooded : ℕ → Session
  | 0 => runOps roamConfig roamIo (create 0) (roamOps.take 3)
  | k + 1 => step roamConfig roamIo (flooded k) (.receive (floodPacket (k + 1))) 20

structure Flooded (k : ℕ) (s : Session) : Prop where
  live : s.terminal = none
  acks : s.gotAck = true ∧ s.sentAck = true
  pinned : s.pinned = some 9
  endpoint : s.peerEndpoint = some roamHome
  initialized : s.window.initialized = true
  highest : s.window.highest = floodSequence k
  position : s.window.position = floodPosition k
  baseline : s.lossBaseline = some 65
  totals : s.lossTotals = {}

theorem floodSequence_shift (k : ℕ) : floodSequence (k + 1) - floodSequence k = 0x7FFFFFFF#32 := by
  apply BitVec.eq_of_toNat_eq
  unfold floodSequence
  rw [BitVec.toNat_sub, BitVec.toNat_ofNat, BitVec.toNat_ofNat]
  simp only [BitVec.toNat_ofNat]
  omega

theorem floodSequence_newer (k : ℕ) : isNewer (floodSequence (k + 1)) (floodSequence k) = true := by
  have hshift := floodSequence_shift k
  have hne : floodSequence (k + 1) ≠ floodSequence k := by
    intro heq
    rw [heq, BitVec.sub_self] at hshift
    exact absurd hshift (by decide)
  unfold isNewer
  rw [hshift]
  exact decide_eq_true ⟨hne, by decide⟩

theorem floodPosition_succ (k : ℕ) :
    wrapPosition (floodPosition k + (floodSequence (k + 1) - floodSequence k).toNat) =
      floodPosition (k + 1) := by
  rw [floodSequence_shift]
  unfold floodPosition wrapPosition
  simp only [BitVec.toNat_ofNat]
  omega

/-- One more packet: its position is counted unless it has wrapped to the baseline or below. -/
theorem Flooded.step {k : ℕ} (h : Flooded k s) :
    Flooded (k + 1) (Peer.step roamConfig roamIo s (.receive (floodPacket (k + 1))) 20) ∧
      (Peer.step roamConfig roamIo s (.receive (floodPacket (k + 1))) 20).lossAccepted =
        if 65 < floodPosition (k + 1) then wrapPosition (s.lossAccepted + 1) else
          s.lossAccepted := by
  have hsequence : (floodPacket (k + 1)).header.sequence = floodSequence (k + 1) := rfl
  have htype : (floodPacket (k + 1)).type = some .keepalive := rfl
  have hpinned : s.pinned = some (floodPacket (k + 1)).header.sessionEpoch := h.pinned
  have hendpoint : s.peerEndpoint = some (floodPacket (k + 1)).source := h.endpoint
  have hnewer : isNewer (floodPacket (k + 1)).header.sequence s.window.highest = true := by
    rw [hsequence, h.highest]
    exact floodSequence_newer k
  have hnext : wrapPosition (s.window.position + ((floodPacket (k + 1)).header.sequence -
      s.window.highest).toNat) = floodPosition (k + 1) := by
    rw [hsequence, h.highest, h.position]
    exact floodPosition_succ k
  generalize floodPacket (k + 1) = p at *
  obtain ⟨hstep, ⟨hinit, hhighest, hposition⟩, hcount⟩ :=
    step_newer (C := roamConfig) (E := roamIo)
      (t := 20) h.initialized hnewer htype h.live h.acks hpinned
      hendpoint h.baseline hnext
  rw [hstep]
  refine ⟨⟨h.live, h.acks, h.pinned, h.endpoint, hinit, hhighest.trans hsequence,
    hposition, h.baseline,
    h.totals⟩, hcount⟩

theorem flooded_execution (k : ℕ) : ∃ h, Execution roamConfig roamIo h 20 (flooded k) := by
  induction k with
  | zero => exact ⟨_, execution_trace (.start 0) (roamOps.take 3) (by decide)⟩
  | succ k ih =>
    obtain ⟨h, hx⟩ := ih
    exact ⟨_, .call (.receive (floodPacket (k + 1))) 20 hx (le_refl 20)⟩

theorem flooded_invariant (k : ℕ) : Flooded k (flooded k) := by
  induction k with
  | zero => constructor <;> decide +kernel
  | succ k ih => exact ih.step.1

theorem flooded_lossAccepted (k : ℕ) : (flooded (k + 1)).lossAccepted =
    if 65 < floodPosition (k + 1) then wrapPosition ((flooded k).lossAccepted + 1)
    else (flooded k).lossAccepted :=
  (flooded_invariant k).step.2

theorem flooded_counts {k : ℕ} (hk : k ≤ 2 ^ 33 + 3) : (flooded k).lossAccepted = k := by
  induction k with
  | zero => decide +kernel
  | succ k ih =>
    have hposition : 65 < floodPosition (k + 1) := by
      have hlt : 65 + (2 ^ 31 - 1) * (k + 1) < 2 ^ 64 := by omega
      unfold floodPosition wrapPosition
      rw [Nat.mod_eq_of_lt hlt]
      omega
    rw [flooded_lossAccepted, if_pos hposition, ih (by omega)]
    unfold wrapPosition
    omega

theorem flooded_wraps {k : ℕ} (hk : k = 2 ^ 33 + 3) : (flooded (k + 2)).lossAccepted = k + 1 := by
  have hunder : ¬ 65 < floodPosition (k + 1) := by
    unfold floodPosition wrapPosition
    omega
  have hover : 65 < floodPosition (k + 2) := by
    unfold floodPosition wrapPosition
    omega
  rw [flooded_lossAccepted (k + 1), if_pos hover, flooded_lossAccepted k, if_neg hunder,
    flooded_counts hk.le]
  unfold wrapPosition
  omega

theorem flooded_loss {k : ℕ} (hk : k = 2 ^ 33 + 3) :
    (flooded (k + 2)).loss = { expected := 2 ^ 31 - 5, accepted := 2 ^ 33 + 4 } := by
  have hflooded := flooded_invariant (k + 2)
  have hcount := flooded_wraps hk
  generalize flooded (k + 2) = s at hflooded hcount
  have hexpected : wrapPosition (0 + wrapPosition (floodPosition (k + 2) + 2 ^ 64 - 65)) =
    2 ^ 31 - 5 := by
    unfold floodPosition wrapPosition
    omega
  have haccepted : wrapPosition (0 + (k + 1)) = 2 ^ 33 + 4 := by
    unfold wrapPosition
    omega
  unfold Session.loss
  rw [hflooded.baseline, hflooded.totals, hflooded.position, hcount]
  dsimp only
  rw [hexpected, haccepted]

/-- A session can have accepted more packets than it expects once the positions have wrapped. -/
theorem loss_wraps : ∃ h t s, Execution roamConfig roamIo h t s ∧
    s.loss.expected < s.loss.accepted := by
  obtain ⟨k, hk⟩ : ∃ k : ℕ, k = 2 ^ 33 + 3 := ⟨_, rfl⟩
  obtain ⟨h, hx⟩ := flooded_execution (k + 2)
  refine ⟨h, 20, _, hx, ?_⟩
  rw [flooded_loss hk]
  norm_num

end Sangtachi.Peer
