import Sangtachi.Core.TokenBucket
import Sangtachi.Peer.Replies

/-! # The budget for unverified destinations

Everything a session sends to an address that is neither a candidate nor its peer endpoint is
paid from one token bucket. The calls of a run are a history of that bucket, so the bucket's
window bound is a bound on the datagrams. -/
namespace Sangtachi.Peer

open Sangtachi.BigEndian Sangtachi.Packet Sangtachi.Replay Sangtachi.InnerIpv4

variable {C : SessionConfig} {E : SessionIo} {s₀ s s' u v : Session} {T : Millis}
  {rx : Option RxPacket} {grants : List Millis}

/-! ## The 64-bit arithmetic -/

def min64 (a b : U64) : U64 := if b < a then b else a

/-- The refill of `spend_for` on the machine words: the level and the stamp after it. -/
def refill64 (milli stamp T : U64) : U64 × U64 :=
  if stamp < T then
    let room := BitVec.ofNat 64 bucketCapacity - milli
    let elapsed := min64 (T - stamp) room
    (milli + min64 room (elapsed * BitVec.ofNat 64 unverifiedTxRefill), T)
  else (milli, stamp)

/-- `spend_for` on the machine words, for a destination that is not verified: whether the datagram
is paid for, the level and the stamp. -/
def spend64 (milli stamp T : U64) : Bool × U64 × U64 :=
  let (level, stamp) := refill64 milli stamp T
  if level < BitVec.ofNat 64 tokenCost then (false, level, stamp)
  else (true, level - BitVec.ofNat 64 tokenCost, stamp)

theorem toNat_min64 (a b : U64) : (min64 a b).toNat = min a.toNat b.toNat := by
  unfold min64
  split_ifs with h
  · rw [BitVec.lt_def] at h
    omega
  · rw [BitVec.lt_def] at h
    omega

theorem refill64_exact {milli stamp T : U64} (hcap : milli.toNat ≤ bucketCapacity)
    (hmilli : s.budgetMilli = milli.toNat) (hstamp : s.budgetAt = stamp.toNat) :
    (refillBudget s T.toNat).budgetMilli = (refill64 milli stamp T).1.toNat ∧
      (refillBudget s T.toNat).budgetAt = (refill64 milli stamp T).2.toNat ∧
      (refill64 milli stamp T).1.toNat ≤ bucketCapacity := by
  unfold refillBudget refill64
  rw [hmilli, hstamp]
  by_cases hlt : stamp < T
  · have hlt' : stamp.toNat < T.toNat := BitVec.lt_def.mp hlt
    rw [if_pos hlt, if_pos hlt']
    dsimp only
    have hsize : bucketCapacity = 10000 := rfl
    have hroom : (BitVec.ofNat 64 bucketCapacity - milli).toNat = bucketCapacity - milli.toNat := by
      rw [BitVec.toNat_sub_of_le (by rw [BitVec.le_def]; exact hcap)]
      rfl
    have helapsed : (T - stamp).toNat = T.toNat - stamp.toNat :=
      BitVec.toNat_sub_of_le (BitVec.le_of_lt hlt)
    have hmul : (min64 (T - stamp) (BitVec.ofNat 64 bucketCapacity - milli) *
        BitVec.ofNat 64 unverifiedTxRefill).toNat =
        min (T.toNat - stamp.toNat) (bucketCapacity - milli.toNat) * unverifiedTxRefill := by
      rw [BitVec.toNat_mul, toNat_min64, hroom, helapsed]
      refine Nat.mod_eq_of_lt ?_
      have hfive : (BitVec.ofNat 64 unverifiedTxRefill).toNat = 5 := rfl
      rw [hfive]
      omega
    have hadd : (milli + min64 (BitVec.ofNat 64 bucketCapacity - milli)
        (min64 (T - stamp) (BitVec.ofNat 64 bucketCapacity - milli) *
          BitVec.ofNat 64 unverifiedTxRefill)).toNat =
        milli.toNat + min (bucketCapacity - milli.toNat)
          (min (T.toNat - stamp.toNat) (bucketCapacity - milli.toNat) * unverifiedTxRefill) := by
      rw [BitVec.toNat_add, toNat_min64, hroom, hmul]
      exact Nat.mod_eq_of_lt (by omega)
    exact ⟨hadd.symm, rfl, by rw [hadd]; omega⟩
  · have hlt' : ¬ stamp.toNat < T.toNat := fun h => hlt (BitVec.lt_def.mpr h)
    rw [if_neg hlt, if_neg hlt']
    exact ⟨hmilli, hstamp, hcap⟩

/-- On a level within the capacity the machine words decide and compute as the exact numbers do,
whatever the two clock values are. -/
theorem spend64_exact {milli stamp T : U64} {dest : Endpoint}
    (hv : isVerified C s dest = false) (hcap : milli.toNat ≤ bucketCapacity)
    (hmilli : s.budgetMilli = milli.toNat) (hstamp : s.budgetAt = stamp.toNat) :
    (spendFor C s dest T.toNat).1 = (spend64 milli stamp T).1 ∧
      (spendFor C s dest T.toNat).2.budgetMilli = (spend64 milli stamp T).2.1.toNat ∧
      (spendFor C s dest T.toNat).2.budgetAt = (spend64 milli stamp T).2.2.toNat ∧
      (spend64 milli stamp T).2.1.toNat ≤ bucketCapacity := by
  obtain ⟨hlevel, hat, hbound⟩ := refill64_exact (T := T) hcap hmilli hstamp
  unfold spendFor spend64
  rw [hv]
  simp only [Bool.false_eq_true, if_false]
  generalize refillBudget s T.toNat = r at hlevel hat ⊢
  generalize refill64 milli stamp T = w at hlevel hat hbound ⊢
  by_cases hb : r.budgetMilli < tokenCost
  · have hb64 : w.1 < BitVec.ofNat 64 tokenCost := by
      rw [BitVec.lt_def, ← hlevel]
      exact hb
    rw [if_pos hb, if_pos hb64]
    exact ⟨rfl, hlevel, hat, hbound⟩
  · have hb64 : ¬ w.1 < BitVec.ofNat 64 tokenCost := by
      rw [BitVec.lt_def, ← hlevel]
      exact hb
    have hsub : (w.1 - BitVec.ofNat 64 tokenCost).toNat = w.1.toNat - tokenCost :=
      BitVec.toNat_sub_of_le (BitVec.not_lt.mp hb64)
    rw [if_neg hb, if_neg hb64]
    exact ⟨rfl, by rw [hsub, hlevel], hat, by rw [hsub]; omega⟩

/-! ## Metering -/

/-- The datagrams that went to an address not verified at that moment. -/
def unverifiedOf (out : List Event) : List Sent := (sentOf out).filter (fun d => !d.verified)

theorem unverifiedOf_append (a b : List Event) :
    unverifiedOf (a ++ b) = unverifiedOf a ++ unverifiedOf b := by
  simp [unverifiedOf]

abbrev BudgetRun : List Millis → ℕ → Millis → Millis → Prop :=
  TokenBucket.Run bucketCapacity unverifiedTxRefill tokenCost

/-- Inside one operation: the datagrams paid so far, those of this operation last, are the grants
of the bucket, and each is of a type that may go to an unverified address. -/
structure Metered (grants : List Millis) (T : Millis) (s : Session) : Prop where
  run : BudgetRun (grants ++ (unverifiedOf s.out).map (fun _ => T)) s.budgetMilli s.budgetAt T
  types : ∀ d ∈ unverifiedOf s.out, d.type = .helloAck ∨ d.type = .pong ∨ d.type = .hello

theorem refillBudget_run (h : BudgetRun grants s.budgetMilli s.budgetAt T) :
    BudgetRun grants (refillBudget s T).budgetMilli (refillBudget s T).budgetAt T ∧
      (refillBudget s T).budgetAt = T := by
  unfold refillBudget
  split_ifs with hlt
  · have hrefill := h.refill
    rw [← TokenBucket.cut_refill (by decide) h.level_le] at hrefill
    exact ⟨hrefill, rfl⟩
  · have heq : s.budgetAt = T := le_antisymm h.stamp_le (not_lt.mp hlt)
    exact ⟨h, heq⟩

theorem refillBudget_out : (refillBudget s T).out = s.out := by
  unfold refillBudget
  split_ifs <;> rfl

theorem Metered.same (h : Metered grants T s) (hout : unverifiedOf s'.out = unverifiedOf s.out)
    (hm : s'.budgetMilli = s.budgetMilli) (ha : s'.budgetAt = s.budgetAt) :
    Metered grants T s' :=
  ⟨by rw [hout, hm, ha]; exact h.run, by rw [hout]; exact h.types⟩

theorem Metered.refused {dest : Endpoint} (h : Metered grants T s)
    (hs : Spend C s dest T false u) : Metered grants T u := by
  cases hs with
  | refused _ _ =>
    have hout := refillBudget_out (s := s) (T := T)
    refine ⟨?_, ?_⟩
    · have hrun := (refillBudget_run h.run).1
      rw [← hout] at hrun
      exact hrun
    · intro d hd
      exact h.types d (by rw [← hout]; exact hd)

theorem Metered.granted {dest : Endpoint} {d : Sent} (h : Metered grants T s)
    (hs : Spend C s dest T true u) (hout : v.out = u.out ++ [.sent d])
    (hd : d.verified = isVerified C s dest)
    (htype : d.type = .helloAck ∨ d.type = .pong ∨ d.type = .hello)
    (hm : v.budgetMilli = u.budgetMilli) (ha : v.budgetAt = u.budgetAt) :
    Metered grants T v := by
  cases hs with
  | free hv =>
    refine h.same ?_ hm ha
    rw [hout, unverifiedOf_append]
    simp [unverifiedOf, hd, hv]
  | paid hv hb =>
    have hone : unverifiedOf [.sent d] = [d] := by simp [unverifiedOf, hd, hv]
    have hu : v.out = s.out ++ [.sent d] := by
      rw [hout]
      exact congrArg (· ++ [Event.sent d]) (refillBudget_out (s := s) (T := T))
    refine ⟨?_, ?_⟩
    · obtain ⟨hrun, hat⟩ := refillBudget_run h.run
      have hstamp : v.budgetAt = T := ha.trans hat
      rw [hat] at hrun
      have hgrant := hrun.grant hb
      rw [hu, unverifiedOf_append, hone, List.map_append, ← List.append_assoc, hm, hstamp]
      exact hgrant
    · intro d' hd'
      rw [hu, unverifiedOf_append, hone] at hd'
      rcases List.mem_append.mp hd' with hold | hnew
      · exact h.types d' hold
      · obtain rfl := List.mem_singleton.mp hnew
        exact htype

theorem SentOne.out {type : PacketType} {payload : List U8} {dest : Endpoint}
    (h : SentOne C E s type payload dest s') :
    ∃ d, s'.out = s.out ++ [.sent d] ∧ d.type = type ∧ d.dest = dest ∧ d.payload = payload ∧
      d.verified = isVerified C s dest ∧ s'.budgetMilli = s.budgetMilli ∧
      s'.budgetAt = s.budgetAt ∧ s'.probes = s.probes ∧ s'.terminal = s.terminal := by
  cases h
  exact ⟨_, rfl, rfl, rfl, rfl, rfl, rfl, rfl, rfl, rfl⟩

theorem Spend.verified_eq {dest e : Endpoint} {granted : Bool}
    (h : Spend C s dest T granted u) : isVerified C u e = isVerified C s e := by
  obtain ⟨counters, milli, stamp, rfl⟩ := h.updates
  rfl

theorem Metered.verifiedSend {dest : Endpoint} (h : Metered grants T s) (type : PacketType)
    (payload : List U8) (hv : isVerified C s dest = true) :
    Metered grants T (sendPacket C E s type payload dest).2 := by
  obtain ⟨counters, calls, hs, hcalls⟩ :=
    sendPacket_spec (C := C) (E := E) s type payload dest
  rw [hs]
  refine h.same ?_ rfl rfl
  rcases hcalls with ⟨rfl, -, -⟩ | ⟨bytes, -, rfl, -⟩
  · rw [List.append_nil]
  · rw [unverifiedOf_append]
    simp [unverifiedOf, nextSent, hv]

theorem Metered.core (h : Metered grants T s) (hc : SameCore s s') : Metered grants T s' :=
  h.same (by simp only [unverifiedOf, hc.sent]) hc.budget hc.budget_at

theorem move_metered (h : Metered grants T s) (hm : Move C E s₀ rx T s s') :
    Metered grants T s' := by
  cases hm with
  | quiet hc => exact h.core hc
  | expire => exact h.same rfl rfl rfl
  | helloRound c hc => exact h.verifiedSend _ _ (verified_of_candidate hc)
  | traffic type payload dest _ _ hv => exact h.verifiedSend _ _ hv
  | record p _ => exact h.same rfl rfl rfl
  | pin p _ =>
    unfold Peer.pin
    split_ifs
    · exact h.same rfl rfl rfl
    · exact h
  | answer i => exact h.same rfl rfl rfl
  | learn p _ _ =>
    unfold Peer.learn
    split_ifs
    · exact h
    · refine h.same ?_ rfl rfl
      exact (unverifiedOf_append _ _).trans (List.append_nil _)
  | ack p hello _ _ _ =>
    rcases sendHelloAck_cases (C := C) (E := E) s hello.nonce p.source T with
      hs | ⟨u, v, counters, hs, hsent, heq⟩
    · exact h.refused hs
    · rw [heq]
      obtain ⟨d, hout, htype, -, -, hd, hb, ha, -, -⟩ := hsent.out
      exact h.granted hs hout (hd.trans hs.verified_eq) (.inl htype) hb ha
  | pong p id _ =>
    rcases sendPong_cases (C := C) (E := E) s id p.source T with hs | ⟨u, hs, hsent⟩
    · exact h.refused hs
    · obtain ⟨d, hout, htype, -, -, hd, hb, ha, -, -⟩ := hsent.out
      exact h.granted hs hout (hd.trans hs.verified_eq) (.inr (.inl htype)) hb ha
  | confirm p hello _ _ _ _ => exact h.same rfl rfl rfl
  | probe p _ _ _ =>
    have hexpire : Metered grants T (expireProbes s T) := h.same rfl rfl rfl
    rcases startPathProbe_cases (C := C) (E := E) s p.source T with
      hc | ⟨draws, hs⟩ | ⟨draws, k, nonce, u, -, -, -, hs, hsent⟩
    · exact hexpire.core hc
    · have hdraw : Metered grants T { expireProbes s T with draws := draws } :=
        hexpire.same rfl rfl rfl
      exact hdraw.refused hs
    · have hdraw : Metered grants T { expireProbes s T with draws := draws } :=
        hexpire.same rfl rfl rfl
      obtain ⟨d, hout, htype, -, -, hd, hb, ha, -, -⟩ := hsent.out
      exact hdraw.granted hs hout (hd.trans hs.verified_eq) (.inr (.inr htype)) hb ha
  | reset p old _ _ _ =>
    refine h.same ?_ rfl rfl
    refine (unverifiedOf_append _ _).trans ?_
    cases s.pinned <;> exact List.append_nil _
  | terminate st =>
    refine h.same ?_ rfl rfl
    exact (unverifiedOf_append _ _).trans (List.append_nil _)

/-! ## Probes -/

/-- Where the probe HELLOs among the calls went: the HELLOs to addresses not verified. -/
def probeHellosOf (out : List Event) : List Endpoint :=
  ((unverifiedOf out).filter (·.type = .hello)).map (·.dest)

theorem probeHellosOf_append (a b : List Event) :
    probeHellosOf (a ++ b) = probeHellosOf a ++ probeHellosOf b := by
  simp [probeHellosOf, unverifiedOf_append]

/-- A HELLO of the retransmission round: to a candidate, under the nonce of the attempt. -/
def RoundHello (C : SessionConfig) (d : Sent) : Prop :=
  d.dest ∈ C.candidates ∧ d.payload = encodeHello ⟨C.attemptNonce, C.localVirtualIp⟩

/-- The probe HELLO `x` no longer stands in the way of another one: its lifetime is over, the
session has ended, or its entry is still in the table. -/
def Accounted (T : Millis) (s : Session) (x : Millis × Endpoint) : Prop :=
  timeAfter x.1 probeTtlMs ≤ T ∨ s.terminal ≠ none ∨
    ∃ q ∈ s.probes, q.dest = x.2 ∧ q.registered = x.1

def Spaced (l : List (Millis × Endpoint)) : Prop :=
  l.Pairwise (fun x y => x.2 = y.2 → x.1 + probeTtlMs < 2 ^ 64 → x.1 + probeTtlMs ≤ y.1)

/-- Inside one operation: the table, and the probe HELLOs so far, those of this operation last. -/
structure ProbeLedger (C : SessionConfig) (l : List (Millis × Endpoint)) (T : Millis)
    (s : Session) : Prop where
  bound : s.probes.length ≤ maxProbePaths
  accounted : ∀ x ∈ l ++ (probeHellosOf s.out).map (T, ·), Accounted T s x
  spaced : Spaced (l ++ (probeHellosOf s.out).map (T, ·))
  rounds : ∀ d ∈ sentOf s.out, d.type = .hello → d.verified = true → RoundHello C d

variable {l : List (Millis × Endpoint)}

theorem ProbeLedger.mono (h : ProbeLedger C l T s)
    (hlen : s'.probes.length ≤ maxProbePaths)
    (hprobes : ∀ q ∈ s.probes, timeAfter q.registered probeTtlMs ≤ T ∨ s'.terminal ≠ none ∨
      ∃ q' ∈ s'.probes, q'.dest = q.dest ∧ q'.registered = q.registered)
    (hterm : s.terminal ≠ none → s'.terminal ≠ none)
    (hout : probeHellosOf s'.out = probeHellosOf s.out)
    (hround : ∀ d ∈ sentOf s'.out, d ∈ sentOf s.out ∨
      (d.type = .hello → d.verified = true → RoundHello C d)) :
    ProbeLedger C l T s' := by
  refine ⟨hlen, fun x hx => ?_, by rw [hout]; exact h.spaced, fun d hd => ?_⟩
  · rw [hout] at hx
    rcases h.accounted x hx with hold | hdead | ⟨q, hq, hdest, hreg⟩
    · exact .inl hold
    · exact .inr (.inl (hterm hdead))
    · rcases hprobes q hq with hover | hdead | ⟨q', hq', hd', hr'⟩
      · exact .inl (by rw [← hreg]; exact hover)
      · exact .inr (.inl hdead)
      · exact .inr (.inr ⟨q', hq', hd'.trans hdest, hr'.trans hreg⟩)
  · rcases hround d hd with hold | hnew
    · exact h.rounds d hold
    · exact hnew

theorem ProbeLedger.same (h : ProbeLedger C l T s) (hp : s'.probes = s.probes)
    (ht : s'.terminal = s.terminal) (ho : sentOf s'.out = sentOf s.out) :
    ProbeLedger C l T s' :=
  h.mono (by rw [hp]; exact h.bound) (fun q hq => .inr (.inr ⟨q, hp ▸ hq, rfl, rfl⟩))
    (by rw [ht]; exact id) (by simp only [probeHellosOf, unverifiedOf, ho])
    (fun d hd => .inl (ho ▸ hd))

theorem ProbeLedger.core (h : ProbeLedger C l T s) (hc : SameCore s s') :
    ProbeLedger C l T s' := h.same hc.probes hc.terminal hc.sent

theorem ProbeLedger.spend {dest : Endpoint} {granted : Bool} (h : ProbeLedger C l T s)
    (hs : Spend C s dest T granted u) : ProbeLedger C l T u := by
  obtain ⟨counters, milli, stamp, rfl⟩ := hs.updates
  exact h.same rfl rfl rfl

theorem ProbeLedger.expire (h : ProbeLedger C l T s) :
    ProbeLedger C l T (expireProbes s T) := by
  refine h.mono ((List.length_filter_le _ _).trans h.bound) (fun q hq => ?_) id rfl
    fun d hd => .inl hd
  by_cases hover : timeAfter q.registered probeTtlMs ≤ T
  · exact .inl hover
  · exact .inr (.inr ⟨q, List.mem_filter.mpr ⟨hq, by simpa [ProbePath.expired] using hover⟩,
      rfl, rfl⟩)

theorem ProbeLedger.send {d : Sent} (h : ProbeLedger C l T s)
    (hout : s'.out = s.out ++ [.sent d]) (hp : s'.probes = s.probes)
    (ht : s'.terminal = s.terminal)
    (hd : d.type = .hello → d.verified = true ∧ RoundHello C d) :
    ProbeLedger C l T s' := by
  refine h.mono (by rw [hp]; exact h.bound) (fun q hq => .inr (.inr ⟨q, hp ▸ hq, rfl, rfl⟩))
    (by rw [ht]; exact id) ?_ (fun d' hd' => ?_)
  · have hnone : probeHellosOf [.sent d] = [] := by
      by_cases htype : d.type = .hello
      · simp [probeHellosOf, unverifiedOf, (hd htype).1]
      · cases hv : d.verified <;> simp [probeHellosOf, unverifiedOf, hv, htype]
    rw [hout, probeHellosOf_append, hnone, List.append_nil]
  · rw [hout, sentOf_append] at hd'
    rcases List.mem_append.mp hd' with hold | hnew
    · exact .inl hold
    · obtain rfl := List.mem_singleton.mp hnew
      exact .inr fun htype _ => (hd htype).2

theorem ProbeLedger.sendPacket {type : PacketType} {payload : List U8} {dest : Endpoint}
    (h : ProbeLedger C l T s)
    (hd : type = .hello → dest ∈ C.candidates ∧
      payload = encodeHello ⟨C.attemptNonce, C.localVirtualIp⟩) :
    ProbeLedger C l T (sendPacket C E s type payload dest).2 := by
  obtain ⟨counters, calls, hs, hcalls⟩ :=
    sendPacket_spec (C := C) (E := E) s type payload dest
  rw [hs]
  rcases hcalls with ⟨rfl, -, -⟩ | ⟨bytes, -, rfl, -⟩
  · exact h.same rfl rfl (by rw [List.append_nil])
  · exact h.send rfl rfl rfl fun htype => ⟨verified_of_candidate (hd htype).1, hd htype⟩

/-- A new probe: no live entry had its address, so every earlier HELLO there is too old. -/
theorem ProbeLedger.register {source : Endpoint} {nonce : Nonce} {d : Sent}
    (h : ProbeLedger C l T s) (hlive : s.terminal = none)
    (hfresh : ∀ q ∈ s.probes, q.dest ≠ source) (hroom : s.probes.length < maxProbePaths)
    (hp : s'.probes = s.probes ++ [⟨source, nonce, T, false⟩])
    (hout : s'.out = s.out ++ [.sent d]) (htype : d.type = .hello) (hdest : d.dest = source)
    (hv : d.verified = false) : ProbeLedger C l T s' := by
  have hone : probeHellosOf [.sent d] = [source] := by
    simp [probeHellosOf, unverifiedOf, hv, htype, hdest]
  have hlist : l ++ (probeHellosOf s'.out).map (T, ·) =
      (l ++ (probeHellosOf s.out).map (T, ·)) ++ [(T, source)] := by
    rw [hout, probeHellosOf_append, hone, List.map_append, List.append_assoc]
    rfl
  refine ⟨?_, fun x hx => ?_, ?_, fun d' hd' => ?_⟩
  · rw [hp, List.length_append]
    exact hroom
  · rw [hlist] at hx
    rcases List.mem_append.mp hx with hold | hnew
    · rcases h.accounted x hold with hover | hdead | ⟨q, hq, hq₁, hq₂⟩
      · exact .inl hover
      · exact absurd hlive hdead
      · exact .inr (.inr ⟨q, by rw [hp]; exact List.mem_append_left _ hq, hq₁, hq₂⟩)
    · obtain rfl := List.mem_singleton.mp hnew
      exact .inr (.inr ⟨_, by rw [hp]; exact List.mem_append_right _ (List.mem_singleton.mpr rfl),
        rfl, rfl⟩)
  · rw [hlist]
    refine List.pairwise_append.mpr
      ⟨h.spaced, List.pairwise_singleton _ _, fun x hx y hy hxy hfits => ?_⟩
    obtain rfl := List.mem_singleton.mp hy
    rcases h.accounted x hx with hover | hdead | ⟨q, hq, hq₁, -⟩
    · rwa [timeAfter_of_fits hfits] at hover
    · exact absurd hlive hdead
    · exact absurd (hq₁.trans hxy) (hfresh q hq)
  · rw [hout, sentOf_append] at hd'
    rcases List.mem_append.mp hd' with hold | hnew
    · exact h.rounds d' hold
    · obtain rfl := List.mem_singleton.mp hnew
      intro _ hverified
      rw [hv] at hverified
      cases hverified

theorem move_ledger (h : ProbeLedger C l T s) (hm : Move C E s₀ rx T s s') :
    ProbeLedger C l T s' := by
  cases hm with
  | quiet hc => exact h.core hc
  | expire => exact h.expire
  | helloRound c hc => exact h.sendPacket fun _ => ⟨hc, rfl⟩
  | traffic type payload dest htype _ _ => exact h.sendPacket fun heq => absurd heq htype
  | record p _ => exact h.same rfl rfl rfl
  | pin p _ =>
    unfold Peer.pin
    split_ifs
    · exact h.same rfl rfl rfl
    · exact h
  | answer i =>
    refine h.mono ?_ (fun q hq => .inr (.inr ?_)) id rfl fun d hd => .inl hd
    · simpa [markAnswered] using h.bound
    · obtain ⟨j, hj⟩ := List.mem_iff_getElem?.mp hq
      refine ⟨if i = j then { q with answered := true } else q, ?_, ?_⟩
      · refine List.mem_iff_getElem?.mpr ⟨j, ?_⟩
        simp only [markAnswered, List.getElem?_modify, hj]
        split_ifs <;> rfl
      · split_ifs <;> exact ⟨rfl, rfl⟩
  | learn p _ _ =>
    unfold Peer.learn
    split_ifs
    · exact h
    · exact h.same rfl rfl ((sentOf_append _ _).trans (List.append_nil _))
  | ack p hello _ _ _ =>
    rcases sendHelloAck_cases (C := C) (E := E) s hello.nonce p.source T with
      hs | ⟨u, v, counters, hs, hsent, heq⟩
    · exact h.spend hs
    · rw [heq]
      obtain ⟨d, hout, htype, -, -, -, -, -, hp, ht⟩ := hsent.out
      exact (h.spend hs).send hout hp ht fun heq' => by rw [htype] at heq'; cases heq'
  | pong p id _ =>
    rcases sendPong_cases (C := C) (E := E) s id p.source T with hs | ⟨u, hs, hsent⟩
    · exact h.spend hs
    · obtain ⟨d, hout, htype, -, -, -, -, -, hp, ht⟩ := hsent.out
      exact (h.spend hs).send hout hp ht fun heq' => by rw [htype] at heq'; cases heq'
  | confirm p hello _ _ _ _ => exact h.same rfl rfl rfl
  | probe p _ hlive hv =>
    have hexpire := h.expire
    rcases startPathProbe_cases (C := C) (E := E) s p.source T with
      hc | ⟨draws, hs⟩ | ⟨draws, k, nonce, u, hfresh, hroom, -, hs, hsent⟩
    · exact hexpire.core hc
    · have hdraw : ProbeLedger C l T { expireProbes s T with draws := draws } :=
        hexpire.same rfl rfl rfl
      exact hdraw.spend hs
    · have hdraw : ProbeLedger C l T { expireProbes s T with draws := draws } :=
        hexpire.same rfl rfl rfl
      have hu := hdraw.spend hs
      have hvu : isVerified C u p.source = false := hs.verified_eq.trans hv
      obtain ⟨d, hout, htype, hdest, -, hd, -, -, hp, -⟩ := hsent.out
      obtain ⟨counters, milli, stamp, rfl⟩ := hs.updates
      exact hu.register hlive hfresh hroom hp hout htype hdest (hd.trans hvu)
  | reset p old _ _ _ =>
    refine h.same rfl rfl ((sentOf_append _ _).trans ?_)
    cases s.pinned <;> exact List.append_nil _
  | terminate st =>
    refine h.mono (Nat.zero_le _) (fun q _ => .inr (.inl (by simp [enterTerminal, notify,
      Session.emit]))) (fun _ => by simp [enterTerminal, notify, Session.emit]) ?_ ?_
    · exact (probeHellosOf_append _ _).trans (List.append_nil _)
    · exact fun d hd => .inl (by simpa [enterTerminal, notify, Session.emit, sentOf, stopTimers,
        Event.sent?] using hd)

/-! ## Runs -/

/-- When the datagrams to unverified addresses went out. -/
def unverifiedTimes (h : List Entry) : List Millis :=
  h.flatMap (fun e => (unverifiedOf e.after.out).map (fun _ => e.now))

def probeHellos (h : List Entry) : List (Millis × Endpoint) :=
  h.flatMap (fun e => (probeHellosOf e.after.out).map (e.now, ·))

structure RunBudget (C : SessionConfig) (h : List Entry) (t : Millis) (s : Session) : Prop where
  run : BudgetRun (unverifiedTimes h) s.budgetMilli s.budgetAt t
  bound : s.probes.length ≤ maxProbePaths
  accounted : ∀ x ∈ probeHellos h, Accounted t s x
  spaced : Spaced (probeHellos h)
  types : ∀ e ∈ h, ∀ d ∈ unverifiedOf e.after.out,
    d.type = .helloAck ∨ d.type = .pong ∨ d.type = .hello
  rounds : ∀ e ∈ h, ∀ d ∈ sentOf e.after.out, d.type = .hello → d.verified = true →
    RoundHello C d

theorem moves_metered (h : Metered grants T s₀) (hm : Moves C E s₀ rx T s₀ s) :
    Metered grants T s := by
  induction hm with
  | refl => exact h
  | tail _ hm ih => exact move_metered ih hm

theorem moves_ledger (h : ProbeLedger C l T s₀) (hm : Moves C E s₀ rx T s₀ s) :
    ProbeLedger C l T s := by
  induction hm with
  | refl => exact h
  | tail _ hm ih => exact move_ledger ih hm

theorem step_preserves_budget {h : List Entry} {t : Millis} (hr : RunBudget C h t s)
    (hlive : Live s ∨ ∃ st, Ended s st) (op : Op) (ht : t ≤ T) :
    RunBudget C (h ++ [⟨T, op, s, step C E s op T⟩]) T (step C E s op T) := by
  have hmoves := step_moves (C := C) (E := E) (T := T) hlive op
  have hclear : Metered (unverifiedTimes h) T { s with out := [] } := by
    refine ⟨?_, fun d hd => by cases hd⟩
    have hwait := hr.run.wait ht
    rwa [← List.append_nil (unverifiedTimes h)] at hwait
  have hmeter := moves_metered hclear hmoves
  have hledger : ProbeLedger C (probeHellos h) T { s with out := [] } := by
    refine ⟨hr.bound, fun x hx => ?_, ?_, fun d hd => by cases hd⟩
    · rw [show probeHellosOf ({ s with out := [] } : Session).out = [] from rfl, List.map_nil,
        List.append_nil] at hx
      rcases hr.accounted x hx with hover | hrest
      · exact .inl (hover.trans ht)
      · exact .inr hrest
    · rw [show probeHellosOf ({ s with out := [] } : Session).out = [] from rfl, List.map_nil,
        List.append_nil]
      exact hr.spaced
  have hprobe := moves_ledger hledger hmoves
  have htimes : unverifiedTimes (h ++ [⟨T, op, s, step C E s op T⟩]) =
      unverifiedTimes h ++ (unverifiedOf (step C E s op T).out).map (fun _ => T) := by
    simp [unverifiedTimes]
  have hhellos : probeHellos (h ++ [⟨T, op, s, step C E s op T⟩]) =
      probeHellos h ++ (probeHellosOf (step C E s op T).out).map (T, ·) := by
    simp [probeHellos]
  refine ⟨by rw [htimes]; exact hmeter.run, hprobe.bound, by rw [hhellos]; exact hprobe.accounted,
    by rw [hhellos]; exact hprobe.spaced, fun e he => ?_, fun e he => ?_⟩
  · rcases List.mem_append.mp he with hold | hnew
    · exact hr.types e hold
    · obtain rfl := List.mem_singleton.mp hnew
      exact hmeter.types
  · rcases List.mem_append.mp he with hold | hnew
    · exact hr.rounds e hold
    · obtain rfl := List.mem_singleton.mp hnew
      exact hprobe.rounds

theorem execution_budget {h : List Entry} {t : Millis} (hx : Execution C E h t s) :
    RunBudget C h t s := by
  induction hx with
  | start t =>
    exact ⟨.full t, Nat.zero_le _, fun x hx => (by cases hx), List.Pairwise.nil,
      fun e he => (by cases he), fun e he => (by cases he)⟩
  | call op T hprev ht ih =>
    exact step_preserves_budget ih (execution_live_or_ended hprev) op ht

/-- The send budget over whole runs. In every window of `len` milliseconds at most
`10 + 5 * len / 1000` datagrams go to unverified addresses, all of them HELLO_ACK, PONG or probe
HELLO; at most four probes are live and two probe HELLOs to one address lie a lifetime apart; the
bucket stays within its capacity, and its machine words compute the exact numbers. -/
theorem unverified_sends_within_budget {h : List Entry} {t : Millis}
    (hx : Execution C E h t s) :
    (∀ a len, TokenBucket.grantsWithin a (a + len) (unverifiedTimes h) ≤
        unverifiedTxBucket + unverifiedTxRefill * len / 1000) ∧
      (∀ e ∈ h, ∀ d ∈ sentOf e.after.out, d.verified = false →
        d.type = .helloAck ∨ d.type = .pong ∨ d.type = .hello) ∧
      (∀ e ∈ h, ∀ d ∈ sentOf e.after.out, d.type = .hello → d.verified = true →
        RoundHello C d) ∧
      s.probes.length ≤ maxProbePaths ∧
      Spaced (probeHellos h) ∧
      s.budgetMilli ≤ bucketCapacity ∧
      ∀ (u : Session) (milli stamp clock : U64) (dest : Endpoint), isVerified C u dest = false →
        milli.toNat ≤ bucketCapacity → u.budgetMilli = milli.toNat → u.budgetAt = stamp.toNat →
        (spendFor C u dest clock.toNat).1 = (spend64 milli stamp clock).1 ∧
          (spendFor C u dest clock.toNat).2.budgetMilli = (spend64 milli stamp clock).2.1.toNat ∧
          (spendFor C u dest clock.toNat).2.budgetAt = (spend64 milli stamp clock).2.2.toNat ∧
          (spend64 milli stamp clock).2.1.toNat ≤ bucketCapacity := by
  have hr := execution_budget hx
  refine ⟨fun a len => ?_, fun e he d hd hv => ?_, hr.rounds, hr.bound, hr.spaced,
    hr.run.level_le, fun u milli stamp clock dest hv hcap hm hs => ?_⟩
  · have hwindow := hr.run.window a len
    have hsize : bucketCapacity = 10 * 1000 := rfl
    have hcost : tokenCost = 1000 := rfl
    have hbucket : unverifiedTxBucket = 10 := rfl
    rw [hsize, hcost] at hwindow
    rw [hbucket]
    omega
  · exact hr.types e he d (List.mem_filter.mpr ⟨hd, by simp [hv]⟩)
  · exact spend64_exact hv hcap hm hs

theorem roam_sends_within_budget :
    TokenBucket.grantsWithin 0 (0 + 1000) (unverifiedTimes roamRun) ≤ 10 + 5 * 1000 / 1000 ∧
      unverifiedTimes roamRun = [30, 30] ∧ probeHellos roamRun = [(30, roamAway)] :=
  ⟨(unverified_sends_within_budget roam_execution).1 0 1000, by decide +kernel, by decide +kernel⟩

/-! ## At the end of the clock -/

/-- A peer that speaks twice from a foreign address, in the last tenth of a second of the clock. -/
def lateProbeOps : List (Op × Millis) :=
  [(.startPunch, 2 ^ 64 - 100),
    (.receive (roamPacket .hello (nonceOf 2) 1 roamAway), 2 ^ 64 - 100),
    (.receive (roamPacket .hello (nonceOf 2) 2 roamAway), 2 ^ 64 - 100)]

def lateProbeRun : List Entry := trace roamConfig roamIo (create (2 ^ 64 - 100)) lateProbeOps

theorem late_probe_execution : Execution roamConfig roamIo lateProbeRun (2 ^ 64 - 100)
    (runOps roamConfig roamIo (create (2 ^ 64 - 100)) lateProbeOps) :=
  execution_trace (.start _) lateProbeOps (by decide)

/-- The lifetime of a probe that would end past the end of the clock is over at once, and the next
packet has a second probe HELLO sent to the same address in the same millisecond. -/
theorem late_probe_repeats : ¬∀ C E h t s, Execution C E h t s →
    (probeHellos h).Pairwise fun x y => x.2 = y.2 → x.1 + probeTtlMs ≤ y.1 := by
  intro h
  have hspaced := h _ _ _ _ _ late_probe_execution
  have htwice : probeHellos lateProbeRun =
    [(2 ^ 64 - 100, roamAway), (2 ^ 64 - 100, roamAway)] := by
    decide +kernel
  rw [htwice] at hspaced
  exact absurd (List.rel_of_pairwise_cons hspaced List.mem_cons_self rfl) (by decide)

end Sangtachi.Peer
