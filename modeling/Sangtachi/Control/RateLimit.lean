import Sangtachi.Control.Http
import Sangtachi.Core.LateCharge
import Sangtachi.Core.TokenBucket

/-! # The pace of counted errors

For one source the server is a bucket that is checked before the thread starts and charged after
it returns: a stretch of beats is a run of `LateCharge`. The bound on such runs then bounds the
counted errors of any window. -/
namespace Sangtachi.Control.Http

variable {α : Type} [DecidableEq α]

def CREDIT_CAP : ℕ := RATE_LIMIT_BUCKET * REFILL_INTERVAL

/-- What a bucket holds as of `now`: its tokens in nanoseconds of refill, and the time since. -/
def Bucket.credit (e : Bucket) (now : ℕ) : ℕ :=
  TokenBucket.available CREDIT_CAP 1 (e.tokens * REFILL_INTERVAL) e.since now

def creditOf (now : ℕ) : Option Bucket → ℕ
  | none => CREDIT_CAP
  | some e => e.credit now

def RateTable.credit (table : RateTable α) (src : α) (now : ℕ) : ℕ :=
  creditOf now (table.entries.lookup src)

/-- No bucket was refilled in the future, and the table keeps its limit. -/
abbrev RateTable.Sound (table : RateTable α) (now : ℕ) : Prop :=
  LazyTable.Sound (fun e : Bucket => e.since ≤ now) MAX_RATE_ENTRIES table.entries

theorem refill_interval_pos : 0 < REFILL_INTERVAL := by decide

theorem Bucket.credit_le (e : Bucket) (now : ℕ) : e.credit now ≤ CREDIT_CAP :=
  TokenBucket.available_le_cap _ _ _ _ _

theorem Bucket.credit_wait {e : Bucket} {now later : ℕ} (h : e.since ≤ now) (hl : now ≤ later) :
    e.credit later = min CREDIT_CAP (e.credit now + (later - now)) := by
  unfold Bucket.credit
  rw [← TokenBucket.available_refill h hl]
  simp [TokenBucket.available]

theorem RateTable.credit_le (table : RateTable α) (src : α) (now : ℕ) :
    table.credit src now ≤ CREDIT_CAP := by
  unfold RateTable.credit
  cases table.entries.lookup src with
  | none => exact le_refl _
  | some e => exact Bucket.credit_le _ _

theorem RateTable.credit_wait {table : RateTable α} {now later : ℕ} (h : table.Sound now)
    (hl : now ≤ later) (src : α) :
    table.credit src later = min CREDIT_CAP (table.credit src now + (later - now)) := by
  unfold RateTable.credit
  cases he : table.entries.lookup src with
  | none => simp [creditOf]
  | some e => exact Bucket.credit_wait (h.kept src e he) hl

theorem RateTable.Sound.later {table : RateTable α} {now later : ℕ} (h : table.Sound now)
    (hl : now ≤ later) : table.Sound later := h.imp fun _ hs => hs.trans hl

/-- A bucket brought up to date: its tokens are whole, and the time since is short of one more. -/
structure Bucket.UpToDate (e : Bucket) (now credit : ℕ) : Prop where
  since : e.since ≤ now
  recent : now - e.since < REFILL_INTERVAL
  below : e.tokens < RATE_LIMIT_BUCKET
  credit : e.tokens * REFILL_INTERVAL + (now - e.since) = credit

theorem Bucket.UpToDate.credit_eq {e : Bucket} {now credit : ℕ} (h : e.UpToDate now credit) :
    e.credit now = credit := by
  have hzero : (now - e.since) / REFILL_INTERVAL = 0 := Nat.div_eq_of_lt h.recent
  have hbelow := h.below
  unfold Bucket.credit CREDIT_CAP
  rw [TokenBucket.available_whole refill_interval_pos (by rw [hzero]; exact hbelow), hzero,
    Nat.mod_eq_of_lt h.recent]
  exact h.credit

theorem Bucket.refilled_some {e e' : Bucket} {now : ℕ} (hs : e.since ≤ now)
    (h : e.refilled now = some e') : e'.UpToDate now (e.credit now) := by
  have hdiv := Nat.div_add_mod (now - e.since) REFILL_INTERVAL
  have hmod := Nat.mod_lt (now - e.since) refill_interval_pos
  rw [Nat.mul_comm] at hdiv
  unfold Bucket.refilled at h
  generalize hsteps : (now - e.since) / REFILL_INTERVAL = steps at h hdiv
  have hcap : e.tokens + steps < RATE_LIMIT_BUCKET →
      (e.tokens + steps) * REFILL_INTERVAL + (now - e.since) % REFILL_INTERVAL =
        e.credit now := by
    intro hlt
    rw [← hsteps] at hlt ⊢
    exact (TokenBucket.available_whole refill_interval_pos hlt).symm
  by_cases hpos : 0 < steps
  · simp only [hpos, if_true] at h
    split at h
    · cases h
    · rename_i htop
      injection h with h
      subst h
      have hrest : now - (e.since + steps * REFILL_INTERVAL) =
          (now - e.since) % REFILL_INTERVAL := by omega
      refine ⟨by simp only; omega, ?_, Nat.lt_of_not_le htop, ?_⟩
      · rw [hrest]
        exact hmod
      · rw [hrest]
        exact hcap (Nat.lt_of_not_le htop)
  · have hzero : steps = 0 := by omega
    subst hzero
    simp only [Nat.lt_irrefl, if_false] at h
    split at h
    · cases h
    · rename_i htop
      injection h with h
      subst h
      have hrest : (now - e.since) % REFILL_INTERVAL = now - e.since := by omega
      refine ⟨hs, by omega, Nat.lt_of_not_le htop, ?_⟩
      rw [← hcap (Nat.lt_of_not_le htop), hrest, Nat.add_zero]

theorem Bucket.refilled_none {e : Bucket} {now : ℕ} (h : e.refilled now = none) :
    e.credit now = CREDIT_CAP := by
  apply TokenBucket.available_top
  unfold Bucket.refilled at h
  generalize (now - e.since) / REFILL_INTERVAL = steps at h
  by_cases hpos : 0 < steps
  · simp only [hpos, if_true] at h
    by_contra hlow
    simp [hlow] at h
  · by_contra hlow
    have hzero : steps = 0 := by omega
    subst hzero
    simp only [Nat.add_zero] at hlow
    simp [hlow] at h

/-- What a bucket is worth now is all that a source can tell of it. -/
def SameCredit (now : ℕ) (o o' : Option Bucket) : Prop := creditOf now o = creditOf now o'

theorem refilled_lawful (now : ℕ) :
    LazyTable.Lawful (fun e : Bucket => e.refilled now) (fun e => e.since ≤ now)
    (SameCredit now) where
  refl _ := rfl
  trans h h' := Eq.trans h h'
  kept hs h := (Bucket.refilled_some hs h).since
  same := by
    intro e hs
    cases h : e.refilled now with
    | none => exact (Bucket.refilled_none h).symm
    | some e' => exact (Bucket.refilled_some hs h).credit_eq

/-- A change of the table that moves no credit as of now and adds no bucket. -/
abbrev RateTable.Upkeep (table table' : RateTable α) (now : ℕ) : Prop :=
  LazyTable.Upkeep (fun e : Bucket => e.since ≤ now) MAX_RATE_ENTRIES
    (SameCredit now) table.entries table'.entries

theorem RateTable.Upkeep.refl {table : RateTable α} {now : ℕ} (h : table.Sound now) :
    table.Upkeep table now := LazyTable.Upkeep.refl (refilled_lawful now) h

theorem RateTable.Upkeep.credit {table table' : RateTable α} {now : ℕ}
    (h : table.Upkeep table' now) (a : α) :
    table'.credit a now = table.credit a now := h.same a

theorem refilled_credit {o : Option Bucket} {now : ℕ} (h : ∀ e ∈ o, e.since ≤ now) :
    match o.bind (·.refilled now) with
    | none => creditOf now o = CREDIT_CAP
    | some e => e.UpToDate now (creditOf now o) := by
  cases o with
  | none => rfl
  | some e =>
    show match e.refilled now with
      | none => e.credit now = CREDIT_CAP
      | some e' => e'.UpToDate now (e.credit now)
    cases hr : e.refilled now with
    | none => exact Bucket.refilled_none hr
    | some e' => exact Bucket.refilled_some (h e rfl) hr

theorem RateTable.sweep_upkeep {table : RateTable α} {now : ℕ} (h : table.Sound now) :
    table.Upkeep (table.sweep now) now := LazyTable.sweep_upkeep (refilled_lawful now) h

theorem RateTable.exhausted_spec {table : RateTable α} {now : ℕ} (h : table.Sound now) (src : α) :
    table.Upkeep (table.exhausted src now).1 now ∧
      ((table.exhausted src now).2 = false → REFILL_INTERVAL ≤ table.credit src now) := by
  obtain ⟨hup, -, hentry⟩ := LazyTable.refill_spec (refilled_lawful now) h src
  refine ⟨hup, fun hout => ?_⟩
  have hcredit := refilled_credit (h.kept src)
  rw [← hentry] at hcredit
  change Option.any _ (LazyTable.refill _ table.entries src).2 = false at hout
  unfold RateTable.credit
  cases hr : (LazyTable.refill (fun e : Bucket => e.refilled now) table.entries src).2 with
  | none =>
    rw [hr] at hcredit
    rw [hcredit]
    exact Nat.le_mul_of_pos_left _ (by decide)
  | some e =>
    rw [hr] at hcredit hout
    simp only [Option.any_some, beq_eq_false_iff_ne] at hout
    rw [← hcredit.credit]
    exact (Nat.le_mul_of_pos_left _ (Nat.pos_of_ne_zero hout)).trans (Nat.le_add_right _ _)

/-- The table has no room even after a sweep: a source without a bucket is let through. -/
def RateTable.Full (table : RateTable α) (now : ℕ) : Prop :=
  MAX_RATE_ENTRIES ≤ (table.sweep now).size

theorem Bucket.spent_credit {o : Option Bucket} {now : ℕ} (h : ∀ e ∈ o, e.since ≤ now) :
    (Bucket.spent now (o.bind (·.refilled now))).credit now =
      LateCharge.charge REFILL_INTERVAL (creditOf now o) := by
  have hcredit := refilled_credit h
  cases hr : o.bind (·.refilled now) with
  | none =>
    rw [hr] at hcredit
    have hnew : Bucket.UpToDate ⟨RATE_LIMIT_BUCKET - 1, now⟩ now
      ((RATE_LIMIT_BUCKET - 1) * REFILL_INTERVAL) :=
      ⟨le_refl now, by
        simp [refill_interval_pos], show RATE_LIMIT_BUCKET - 1 < RATE_LIMIT_BUCKET by
          decide, by simp⟩
    have hcap : CREDIT_CAP = (RATE_LIMIT_BUCKET - 1 + 1) * REFILL_INTERVAL := rfl
    rw [hcredit, Bucket.spent, hnew.credit_eq, LateCharge.charge, hcap, Nat.add_mul,
      if_pos (by omega)]
    omega
  | some e =>
    rw [hr] at hcredit
    have hdown : Bucket.UpToDate { e with tokens := e.tokens - 1 } now
        ((e.tokens - 1) * REFILL_INTERVAL + (now - e.since)) :=
      ⟨hcredit.since, hcredit.recent, (Nat.sub_le _ _).trans_lt hcredit.below, rfl⟩
    have hrecent := hcredit.recent
    rw [Bucket.spent, hdown.credit_eq, ← hcredit.credit]
    unfold LateCharge.charge
    rcases Nat.eq_zero_or_pos e.tokens with hzero | hpos
    · rw [hzero, if_neg (by omega)]
    · obtain ⟨n, hn⟩ : ∃ n, e.tokens = n + 1 := ⟨e.tokens - 1, by omega⟩
      rw [hn, Nat.add_mul, if_pos (by omega)]
      simp only [Nat.add_sub_cancel]
      omega

theorem Bucket.spent_since {o : Option Bucket} {now : ℕ} (h : ∀ e ∈ o, e.since ≤ now) :
    (Bucket.spent now o).since ≤ now := by
  cases o with
  | none => exact le_refl now
  | some e => exact h e rfl

theorem RateTable.spend_spec {table : RateTable α} {now : ℕ} (h : table.Sound now) (src : α) :
    (table.spend src now).Sound now ∧
      (¬ table.Full now → ∀ a, (table.spend src now).credit a now =
        if a = src then LateCharge.charge REFILL_INTERVAL (table.credit src now)
        else table.credit a now) := by
  have hspent : ∀ o : Option Bucket, (∀ e ∈ o, e.since ≤ now) → (Bucket.spent now o).since ≤ now :=
    fun _ => Bucket.spent_since
  obtain ⟨hsound, hwritten, hroom⟩ := LazyTable.spend_spec (refilled_lawful now) h hspent src
  unfold RateTable.spend
  split
  case h_1 entries hspend =>
    rw [hspend] at hsound hwritten
    refine ⟨hsound, fun _ a => ?_⟩
    have hentry := hwritten rfl a
    split_ifs at hentry ⊢ with ha
    · subst ha
      exact (congrArg (creditOf now) hentry).trans (Bucket.spent_credit (h.kept a))
    · exact hentry
  case h_2 entries hspend =>
    rw [hspend] at hsound hroom
    exact ⟨hsound, fun hfree => Bool.noConfusion (hroom hfree)⟩

/-- The connections of a source that are past the check. -/
def Server.passed (s : Server α) (src : α) : ℕ :=
  s.connections.countP fun c => decide (c.src = src) && c.phase.isDispatching

def Server.standing (s : Server α) (src : α) (now : ℕ) : LateCharge.Standing :=
  ⟨s.rate.credit src now, s.passed src⟩

structure Server.Sound (s : Server α) (now : ℕ) : Prop where
  rate : s.rate.Sound now
  inflight : s.inflight ≤ MAX_INFLIGHT

def countedTo (src : α) (sent : List (Sent α)) : ℕ :=
  sent.countP fun out => decide (out.src = src) && out.response.counted

theorem passed_le (s : Server α) (src : α) : s.passed src ≤ s.inflight := List.countP_le_length

theorem Server.Sound.within {s : Server α} {now : ℕ} (h : s.Sound now) (src : α) :
    (s.standing src now).Within CREDIT_CAP MAX_INFLIGHT :=
  ⟨RateTable.credit_le _ _ _, (passed_le s src).trans h.inflight⟩

theorem Server.Sound.later {s : Server α} {now later : ℕ} (h : s.Sound now)
    (hl : now ≤ later) : s.Sound later := ⟨h.rate.later hl, h.inflight⟩

theorem standing_wait {s : Server α} {now later : ℕ} (h : s.Sound now) (hl : now ≤ later)
    (src : α) :
    LateCharge.Step CREDIT_CAP REFILL_INTERVAL MAX_INFLIGHT (s.standing src now) (later - now) 0
      (s.standing src later) := by
  have hstep := @LateCharge.Step.wait CREDIT_CAP REFILL_INTERVAL MAX_INFLIGHT
    (s.rate.credit src now) (s.passed src) (later - now)
  rwa [← RateTable.credit_wait h.rate hl] at hstep

theorem countP_set_add {β : Type} (p : β → Bool) (x : β) {y : β} :
    ∀ {l : List β} {i : ℕ}, l[i]? = some y →
      (l.set i x).countP p + (if p y then 1 else 0) = l.countP p + (if p x then 1 else 0)
  | [], _, h => by simp at h
  | z :: l, 0, h => by
    simp only [List.getElem?_cons_zero, Option.some.injEq] at h
    subst h
    simp only [List.set_cons_zero, List.countP_cons]
    omega
  | z :: l, i + 1, h => by
    have ih := countP_set_add p x (l := l) (i := i) (by simpa using h)
    simp only [List.set_cons_succ, List.countP_cons]
    omega

theorem countP_eraseIdx_add {β : Type} (p : β → Bool) {y : β} :
    ∀ {l : List β} {i : ℕ}, l[i]? = some y →
      (l.eraseIdx i).countP p + (if p y then 1 else 0) = l.countP p
  | [], _, h => by simp at h
  | z :: l, 0, h => by
    simp only [List.getElem?_cons_zero, Option.some.injEq] at h
    subst h
    simp only [List.eraseIdx_cons_zero, List.countP_cons]
  | z :: l, i + 1, h => by
    have ih := countP_eraseIdx_add p (l := l) (i := i) (by simpa using h)
    simp only [List.eraseIdx_cons_succ, List.countP_cons]
    omega

/-- What a connection that stops waiting counts for, when it was past the check. -/
def Connection.weight (c : Connection α) (src : α) : ℕ :=
  if decide (c.src = src) && c.phase.isDispatching then 1 else 0

theorem passed_answer {s : Server α} {index : ℕ} {c : Connection α}
    (h : s.connections[index]? = some c) (out : Option Response) (src a : α) :
    (s.answer index src out).1.passed a + c.weight a = s.passed a := by
  cases out with
  | none => exact countP_eraseIdx_add _ h
  | some out =>
    have hset := countP_set_add (fun c : Connection α => decide (c.src = a) &&
      c.phase.isDispatching) ⟨src, .answering⟩ h
    simpa [Server.passed, Server.answer, Connection.weight, Phase.isDispatching] using hset

theorem answer_rate (s : Server α) (index : ℕ) (src : α) (out : Option Response) :
    (s.answer index src out).1.rate = s.rate := by
  cases out <;> rfl

theorem answer_sent (s : Server α) (index : ℕ) (src : α) (out : Option Response) :
    (s.answer index src out).2 = out.map (Sent.mk src) := by
  cases out <;> rfl

theorem inflight_answer_le (s : Server α) (index : ℕ) (src : α) (out : Option Response) :
    (s.answer index src out).1.inflight ≤ s.inflight := by
  cases out with
  | none => exact List.length_eraseIdx_le _ _
  | some out => exact (List.length_set ..).le

theorem ParseError.not_counted (e : ParseError) :
    (Response.error e.error).counted = false := by
  cases e <;> rfl

/-- What the first half of `handle_request` does to the table: an upkeep. A request that goes on
to the thread found a token; an answer is no counted error. -/
theorem handleRequest_spec {rate : RateTable α} {now : ℕ} (h : rate.Sound now) (src : α)
    (result : Reading) :
    rate.Upkeep (handleRequest rate src now result).1 now ∧
      match (handleRequest rate src now result).2 with
      | .answer out => ∀ response ∈ out, response.counted = false
      | .dispatch _ => REFILL_INTERVAL ≤ rate.credit src now := by
  cases result with
  | refused e =>
    refine ⟨.refl h, fun response hr => ?_⟩
    cases hr
    exact e.not_counted
  | timedOut => exact ⟨.refl h, by simp [handleRequest]⟩
  | closed => exact ⟨.refl h, by simp [handleRequest]⟩
  | failed =>
    refine ⟨.refl h, fun response hr => ?_⟩
    cases hr
    rfl
  | request req =>
    obtain ⟨hup, hpass⟩ := RateTable.exhausted_spec h src
    unfold handleRequest
    rcases hr : rate.exhausted src now with ⟨table, out⟩
    rw [hr] at hup hpass
    cases out with
    | true =>
      refine ⟨hup, fun response hr => ?_⟩
      cases hr
      rfl
    | false => exact ⟨hup, hpass rfl⟩

/-- The second half charges the source for a counted error, and for nothing else. -/
theorem handleOutcome_spec {rate : RateTable α} {now : ℕ} (h : rate.Sound now) (src : α)
    (result : Outcome) :
    (handleOutcome rate src now result).1.Sound now ∧
      (¬ rate.Full now → ∀ a, (handleOutcome rate src now result).1.credit a now =
        if a = src ∧ (handleOutcome rate src now result).2.counted = true then
          LateCharge.charge REFILL_INTERVAL (rate.credit src now)
        else rate.credit a now) := by
  cases result with
  | fields value =>
    refine ⟨h, fun _ a => ?_⟩
    simp [handleOutcome, Response.counted]
  | failed =>
    refine ⟨h, fun _ a => ?_⟩
    rw [if_neg (by simp [handleOutcome, Response.counted, internalError, opError, COUNTED_ERRORS])]
    rfl
  | raised e =>
    by_cases hc : e.code ∈ COUNTED_ERRORS
    · obtain ⟨hsound, hcredit⟩ := RateTable.spend_spec h src
      simp only [handleOutcome, hc, if_true, Response.counted, decide_true, and_true]
      exact ⟨hsound, hcredit⟩
    · simp only [handleOutcome, hc, if_false, Response.counted, decide_false, Bool.false_eq_true,
        and_false]
      exact ⟨h, fun _ _ => by simp⟩

/-- What one beat is for a source: the server stays sound, and while the table is not full the
standing of the source takes a step that charges it for what it is sent. -/
structure Server.Paced (s s' : Server α) (out : Option (Sent α)) (now : ℕ) : Prop where
  sound : s'.Sound now
  step : ¬ s.rate.Full now → ∀ src, LateCharge.Step CREDIT_CAP REFILL_INTERVAL MAX_INFLIGHT
    (s.standing src now) 0 (countedTo src out.toList) (s'.standing src now)

theorem step_of_passed {s s' : Server α} {src : α} {now : ℕ} {out : Option (Sent α)}
    (hcredit : s'.rate.credit src now = s.rate.credit src now)
    (hcounted : countedTo src out.toList = 0)
    (h : s'.passed src = s.passed src ∨ s'.passed src + 1 = s.passed src ∨
      (s'.passed src = s.passed src + 1 ∧ s.passed src < MAX_INFLIGHT ∧
        REFILL_INTERVAL ≤ s.rate.credit src now)) :
    LateCharge.Step CREDIT_CAP REFILL_INTERVAL MAX_INFLIGHT (s.standing src now) 0
      (countedTo src out.toList) (s'.standing src now) := by
  unfold Server.standing
  rw [hcounted, hcredit]
  rcases h with h | h | ⟨h, hroom, htoken⟩
  · rw [h]
    exact .idle _ _
  · rw [← h]
    exact .leave _ _
  · rw [h]
    exact .pass _ _ htoken hroom

theorem countedTo_none {src : α} {out : Option (Sent α)}
    (h : ∀ sent ∈ out, sent.response.counted = false) : countedTo src out.toList = 0 := by
  apply List.countP_eq_zero.mpr
  intro sent hsent
  simp [h sent (Option.mem_toList.mp hsent)]

theorem onConnection_paced {s : Server α} {now : ℕ} (h : s.Sound now) (src : α) :
    s.Paced (s.onConnection src).1 (s.onConnection src).2 now := by
  unfold Server.onConnection
  split
  · split
    · exact ⟨⟨h.rate, h.inflight⟩, fun _ a =>
        step_of_passed rfl rfl (.inl rfl)⟩
    · refine ⟨⟨h.rate, h.inflight⟩, fun _ a =>
        step_of_passed rfl (countedTo_none fun sent hsent => ?_) (.inl rfl)⟩
      cases hsent
      rfl
  · rename_i hfree
    refine ⟨⟨h.rate, ?_⟩, fun _ a => step_of_passed rfl rfl (.inl ?_)⟩
    · simp only [Server.inflight, List.length_append, List.length_singleton] at hfree ⊢
      omega
    · simp [Server.passed, Phase.isDispatching]

theorem read_paced {s : Server α} {now : ℕ} (h : s.Sound now) {index : ℕ} {src : α}
    (hc : s.connections[index]? = some ⟨src, .reading⟩) (result : Reading) {s' : Server α}
    {out : Option (Sent α)} (hbeat : s.beat now (.read index result) = some (s', out)) :
    s.Paced s' out now := by
  obtain ⟨hup, hnext⟩ := handleRequest_spec h.rate src result
  simp only [Server.beat, hc] at hbeat
  rcases hr : handleRequest s.rate src now result with ⟨rate, next⟩
  rw [hr] at hup hnext hbeat
  cases next with
  | answer response =>
    simp only [Option.some.injEq] at hbeat
    obtain rfl : s' = ({ s with rate := rate }.answer index src response).1 := by rw [hbeat]
    obtain rfl : out = ({ s with rate := rate }.answer index src response).2 := by rw [hbeat]
    have hrate := answer_rate { s with rate := rate } index src response
    refine ⟨⟨hrate ▸ hup.sound,
      (inflight_answer_le { s with rate := rate } _ _ _).trans h.inflight⟩, fun _ a => ?_⟩
    apply step_of_passed
    · rw [hrate, hup.credit]
    · rw [answer_sent]
      apply countedTo_none
      intro sent hmem
      obtain ⟨response', hmem', rfl⟩ := Option.mem_map.mp hmem
      exact hnext response' hmem'
    · have hpassed := passed_answer (s := { s with rate := rate }) hc response src a
      simp only [Connection.weight, Phase.isDispatching, Bool.and_false] at hpassed
      exact .inl hpassed
  | dispatch req =>
    simp only [Option.some.injEq, Prod.mk.injEq] at hbeat
    rw [← hbeat.1, ← hbeat.2]
    refine ⟨⟨hup.sound, (List.length_set ..).le.trans h.inflight⟩, fun _ a => ?_⟩
    apply step_of_passed (hup.credit a) rfl
    have hset := countP_set_add (fun c : Connection α => decide (c.src = a) &&
      c.phase.isDispatching) ⟨src, .dispatching req⟩ hc
    by_cases ha : src = a
    · subst ha
      right
      right
      have hlt : index < s.connections.length := (List.getElem?_eq_some_iff.mp hc).1
      have hfree : s.passed src < s.inflight := by
        apply Nat.lt_of_le_of_ne (passed_le s src)
        intro hall
        have hpast := List.countP_eq_length.mp hall _ (List.mem_of_getElem? hc)
        simp [Phase.isDispatching] at hpast
      refine ⟨?_, hfree.trans_le h.inflight, hnext⟩
      simpa [Server.passed, Phase.isDispatching] using hset
    · left
      simpa [Server.passed, Phase.isDispatching, ha] using hset

theorem dispatched_paced {s : Server α} {now : ℕ} (h : s.Sound now)
    {index : ℕ} {src : α} {req : Service.Request}
    (hc : s.connections[index]? = some ⟨src, .dispatching req⟩) (result : Outcome)
    {s' : Server α} {out : Option (Sent α)}
    (hbeat : s.beat now (.dispatched index result) = some (s', out)) :
    s.Paced s' out now := by
  obtain ⟨hsound, hcredit⟩ := handleOutcome_spec h.rate src result
  simp only [Server.beat, hc] at hbeat
  rcases hr : handleOutcome s.rate src now result with ⟨rate, response⟩
  rw [hr] at hsound hcredit hbeat
  simp only [Option.some.injEq] at hbeat hcredit
  obtain rfl : s' = ({ s with rate := rate }.answer index src (some response)).1 := by rw [hbeat]
  obtain rfl : out = some ⟨src, response⟩ :=
    (congrArg Prod.snd hbeat).symm
  refine ⟨⟨hsound, (inflight_answer_le { s with rate := rate } _ _ _).trans h.inflight⟩,
    fun hroom a => ?_⟩
  have hpassed := passed_answer (s := { s with rate := rate }) hc (some response) src a
  have hrate := hcredit hroom a
  by_cases ha : src = a
  · subst ha
    simp only [Connection.weight, Phase.isDispatching, decide_true, Bool.true_and, if_true]
      at hpassed
    by_cases hcount : response.counted = true
    · -- a counted error: the charge and the answer are one step
      rw [if_pos ⟨rfl, hcount⟩] at hrate
      have hone : countedTo src (some (Sent.mk src response)).toList = 1 := by
        simp [countedTo, hcount]
      have hstep := @LateCharge.Step.charge CREDIT_CAP REFILL_INTERVAL MAX_INFLIGHT
        (s.rate.credit src now)
        (({ s with rate := rate }.answer index src (some response)).1.passed src)
      rw [← hrate, hpassed] at hstep
      exact hone ▸ hstep
    · rw [if_neg (by simp [hcount])] at hrate
      apply step_of_passed hrate
      · simp [countedTo, hcount]
      · exact .inr (.inl hpassed)
  · rw [if_neg (by simp [Ne.symm ha])] at hrate
    apply step_of_passed hrate
    · simp [countedTo, ha]
    · simp only [Connection.weight, ha, decide_false, Bool.false_and] at hpassed
      exact .inl hpassed

theorem beat_paced {s : Server α} {now : ℕ} (h : s.Sound now)
    {b : Beat α} {s' : Server α} {out : Option (Sent α)} (hbeat : s.beat now b = some (s', out)) :
    s.Paced s' out now := by
  cases b with
  | connected src =>
    simp only [Server.beat, Option.some.injEq] at hbeat
    have hpaced := onConnection_paced h src
    rwa [hbeat] at hpaced
  | read index result =>
    cases hc : s.connections[index]? with
    | none => simp [Server.beat, hc] at hbeat
    | some c =>
      obtain ⟨src, phase⟩ := c
      cases phase with
      | reading => exact read_paced h hc result hbeat
      | dispatching req => simp [Server.beat, hc] at hbeat
      | answering => simp [Server.beat, hc] at hbeat
  | dispatched index result =>
    cases hc : s.connections[index]? with
    | none => simp [Server.beat, hc] at hbeat
    | some c =>
      obtain ⟨src, phase⟩ := c
      cases phase with
      | dispatching req => exact dispatched_paced h hc result hbeat
      | reading => simp [Server.beat, hc] at hbeat
      | answering => simp [Server.beat, hc] at hbeat
  | answered index =>
    cases hc : s.connections[index]? with
    | none => simp [Server.beat, hc] at hbeat
    | some c =>
      obtain ⟨src, phase⟩ := c
      cases phase with
      | reading => simp [Server.beat, hc] at hbeat
      | dispatching req => simp [Server.beat, hc] at hbeat
      | answering =>
        simp only [Server.beat, hc, Option.some.injEq, Prod.mk.injEq] at hbeat
        rw [← hbeat.1, ← hbeat.2]
        refine ⟨⟨h.rate, (List.length_eraseIdx_le _ _).trans h.inflight⟩, fun _ a =>
          step_of_passed rfl rfl (.inl ?_)⟩
        have hset := countP_eraseIdx_add (fun c : Connection α => decide (c.src = a) &&
          c.phase.isDispatching) hc
        simpa [Server.passed, Phase.isDispatching] using hset
  | rejected =>
    simp only [Server.beat] at hbeat
    split at hbeat
    · simp only [Option.some.injEq, Prod.mk.injEq] at hbeat
      rw [← hbeat.1, ← hbeat.2]
      exact ⟨⟨h.rate, h.inflight⟩, fun _ a => step_of_passed rfl rfl (.inl rfl)⟩
    · cases hbeat

/-- A stretch of the server's life: the clock runs on and the loop takes beats, in any order its
connections allow. `P` holds of the table whenever a beat comes. -/
inductive Stretch (P : RateTable α → ℕ → Prop) :
    Server α → ℕ → List (Sent α) → Server α → ℕ → Prop where
  | start (s : Server α) (now : ℕ) : Stretch P s now [] s now
  | wait {s s' : Server α} {now now' later : ℕ} {sent : List (Sent α)} :
      Stretch P s now sent s' now' → now' ≤ later → Stretch P s now sent s' later
  | beat {s s' s'' : Server α} {now now' : ℕ} {sent : List (Sent α)} {b : Beat α}
      {out : Option (Sent α)} :
      Stretch P s now sent s' now' → P s'.rate now' → s'.beat now' b = some (s'', out) →
      Stretch P s now (sent ++ out.toList) s'' now'

variable {P : RateTable α → ℕ → Prop} {s s' : Server α} {now later : ℕ} {sent : List (Sent α)}

theorem initial_sound (now : ℕ) : (Server.initial : Server α).Sound now :=
  ⟨⟨fun src e he => by simp [Server.initial] at he, Nat.zero_le _⟩, Nat.zero_le _⟩

theorem Stretch.le (h : Stretch P s now sent s' later) : now ≤ later := by
  induction h with
  | start => exact le_refl _
  | wait _ hl ih => exact ih.trans hl
  | beat _ _ _ ih => exact ih

theorem Stretch.sound (h : Stretch P s now sent s' later) (hs : s.Sound now) :
    s'.Sound later := by
  induction h with
  | start => exact hs
  | wait _ hl ih => exact (ih hs).later hl
  | beat _ _ hbeat ih => exact (beat_paced (ih hs) hbeat).sound

theorem Stretch.run (h : Stretch (fun rate now => ¬ rate.Full now) s now sent s' later)
    (hs : s.Sound now) (src : α) :
    LateCharge.Run CREDIT_CAP REFILL_INTERVAL MAX_INFLIGHT (s.standing src now) (later - now)
      (countedTo src sent) (s'.standing src later) := by
  induction h with
  | start =>
    rw [Nat.sub_self]
    exact .done _
  | @wait s' now now' later sent hrun hl ih =>
    have hlater := (ih hs).snoc (standing_wait (hrun.sound hs) hl src)
    have hle := hrun.le
    rwa [show now' - now + (later - now') = later - now by omega, Nat.add_zero] at hlater
  | beat hrun hroom hbeat ih =>
    have hpaced := beat_paced (hrun.sound hs) hbeat
    have hnext := (ih hs).snoc (hpaced.step hroom src)
    rw [Nat.add_zero] at hnext
    rwa [countedTo, List.countP_append]

/-- In any window of any history, with any interleaving of the connections in flight: while the
table is not full, a source is sent one burst of counted errors, and no more than `MAX_INFLIGHT`
for each refill. -/
theorem counted_errors_paced {opened : ℕ} {before : List (Sent α)}
    (hreach : Stretch (fun _ _ => True) Server.initial opened before s now)
    (hwindow : Stretch (fun rate now => ¬ rate.Full now) s now sent s' later) (src : α) :
    countedTo src sent ≤
      RATE_LIMIT_BUCKET + 2 * MAX_INFLIGHT - 2 +
        MAX_INFLIGHT * (later - now) / REFILL_INTERVAL := by
  have hsound := hreach.sound (initial_sound opened)
  have hcharges := (hwindow.run hsound src).charges_le refill_interval_pos (by decide) (by decide)
    (hsound.within src)
  have hdiv := Nat.div_le_div_right (c := REFILL_INTERVAL) hcharges
  rwa [Nat.mul_div_cancel _ refill_interval_pos, Nat.mul_comm (_ - 2),
    Nat.mul_add_div refill_interval_pos] at hdiv

theorem RateTable.not_full {table : RateTable α} {now : ℕ} (h : table.Sound now)
    (hsize : table.size < MAX_RATE_ENTRIES) : ¬ table.Full now := by
  have hswept : (table.sweep now).size ≤ table.size := (RateTable.sweep_upkeep h).size
  unfold RateTable.Full
  omega

/-- Beats at given times, played while they are in order and the table has a free place. -/
def Server.play (s : Server α) (now : ℕ) :
    List (ℕ × Beat α) → Option (Server α × ℕ × List (Sent α))
  | [] => some (s, now, [])
  | (later, b) :: beats =>
    if now ≤ later ∧ s.rate.size < MAX_RATE_ENTRIES then do
      let (s', out) ← s.beat later b
      let (s'', last, sent) ← s'.play later beats
      return (s'', last, out.toList ++ sent)
    else none

theorem Stretch.append {s'' : Server α} {last : ℕ} {sent' : List (Sent α)}
    (h : Stretch P s now sent s' later) (h' : Stretch P s' later sent' s'' last) :
    Stretch P s now (sent ++ sent') s'' last := by
  induction h' with
  | start => rwa [List.append_nil]
  | wait _ hl ih => exact (ih h).wait hl
  | beat _ hP hbeat ih =>
    rw [← List.append_assoc]
    exact (ih h).beat hP hbeat

theorem play_stretch {beats : List (ℕ × Beat α)} (hs : s.Sound now)
    (h : s.play now beats = some (s', later, sent)) :
    Stretch (fun rate now => ¬ rate.Full now) s now sent s' later := by
  induction beats generalizing s now sent with
  | nil =>
    simp only [Server.play, Option.some.injEq, Prod.mk.injEq] at h
    obtain ⟨rfl, rfl, rfl⟩ := h
    exact .start s now
  | cons timed beats ih =>
    obtain ⟨at', b⟩ := timed
    simp only [Server.play] at h
    split at h
    · rename_i hok
      simp only [bind, Option.bind_eq_some_iff, pure, Option.some.injEq, Prod.mk.injEq,
        Prod.exists] at h
      obtain ⟨s₁, out, hbeat, s₂, last, rest, hrest, rfl, rfl, rfl⟩ := h
      have hsound := hs.later hok.1
      have hroom := RateTable.not_full hsound.rate hok.2
      have hfirst := ((Stretch.start (P := fun rate now => ¬ RateTable.Full rate now) s now).wait
        hok.1).beat hroom hbeat
      exact hfirst.append (ih (beat_paced hsound hbeat).sound hrest)
    · cases h

/-- A wave of guesses from source 0: the connections come, all of them pass the check, and then all
of them are answered. -/
def wave (now : ℕ) : List (ℕ × Beat ℕ) :=
  let all := List.range MAX_INFLIGHT
  ((all.map fun _ => Beat.connected 0) ++
    (all.map fun i => Beat.read i (.request ⟨"get_peers".toList, .obj []⟩)) ++
    (all.map fun i => Beat.dispatched i (.raised roomNotFound)) ++
    (all.map fun _ => Beat.answered 0)).map fun b => (now, b)

theorem two_waves : ∃ (s : Server ℕ) (sent : List (Sent ℕ)),
    Stretch (fun rate now => ¬ rate.Full now) Server.initial 0 sent s REFILL_INTERVAL ∧
      countedTo 0 sent = 2 * MAX_INFLIGHT := by
  have hplay : ((Server.initial : Server ℕ).play 0 (wave 0 ++ wave REFILL_INTERVAL)).any (fun r =>
      r.2.1 = REFILL_INTERVAL ∧ countedTo 0 r.2.2 = 2 * MAX_INFLIGHT) = true := by
    decide +kernel
  cases hrun : (Server.initial : Server ℕ).play 0 (wave 0 ++ wave REFILL_INTERVAL) with
  | none => simp [hrun] at hplay
  | some r =>
    obtain ⟨s, later, sent⟩ := r
    simp only [hrun, Option.any_some, decide_eq_true_eq] at hplay
    obtain ⟨rfl, hcount⟩ := hplay
    exact ⟨s, sent, play_stretch (initial_sound 0) hrun, hcount⟩

/-- One token that comes back lets a second whole wave through. -/
theorem late_charges_overdraw : ∃ (s : Server ℕ) (sent : List (Sent ℕ)),
    Stretch (fun rate now => ¬ rate.Full now) Server.initial 0 sent s REFILL_INTERVAL ∧
      RATE_LIMIT_BUCKET + (REFILL_INTERVAL - 0) / REFILL_INTERVAL + MAX_INFLIGHT <
        countedTo 0 sent := by
  obtain ⟨s, sent, hrun, hcount⟩ := two_waves
  refine ⟨s, sent, hrun, ?_⟩
  rw [hcount]
  decide

theorem two_waves_paced : ∃ sent : List (Sent ℕ), countedTo 0 sent = 2 * MAX_INFLIGHT ∧
    countedTo 0 sent ≤ RATE_LIMIT_BUCKET + 2 * MAX_INFLIGHT - 2 +
      MAX_INFLIGHT * (REFILL_INTERVAL - 0) / REFILL_INTERVAL := by
  obtain ⟨s, sent, hrun, hcount⟩ := two_waves
  exact ⟨sent, hcount, counted_errors_paced (.start _ 0) hrun 0⟩

end Sangtachi.Control.Http
