import Sangtachi.Network.StunClient

/-! # The STUN stage over every run

Each call of the client is a sequence of moves. What one move keeps holds for every order of
datagrams and timers, and a stage that is over stays over. -/
namespace Sangtachi.StunClient

open Sangtachi.BigEndian Sangtachi.Stun Sangtachi.Timers
open Sangtachi.Peer (Endpoint)
open Sangtachi.Lobby (Bytes ascii decimal)
open Sangtachi.Network (parseDecimal parseDecimal_eq_some_iff decimal_injective)

/-! ## Servers -/

theorem resolveStunServers_distinct (list : List StunServerName)
    (resolve : Bytes → U16 → Option Endpoint) :
    ((resolveStunServers list resolve).map StunServer.endpoint).Nodup := by
  have hone : ∀ out entry, (out.map StunServer.endpoint).Nodup →
      ((resolveOne resolve out entry).map StunServer.endpoint).Nodup := by
    intro out entry hout
    unfold resolveOne
    split
    · exact hout
    case h_2 endpoint _ =>
      split_ifs with hknown
      · exact hout
      · rw [List.map_append, List.map_singleton, List.nodup_append]
        refine ⟨hout, List.nodup_singleton _, fun e he e' he' heq => hknown ?_⟩
        obtain ⟨server, hserver, rfl⟩ := List.mem_map.mp he
        obtain rfl := List.mem_singleton.mp he'
        exact List.any_eq_true.mpr ⟨server, hserver, decide_eq_true heq⟩
  unfold resolveStunServers
  have hall : ∀ out, (out.map StunServer.endpoint).Nodup →
      ((list.foldl (resolveOne resolve) out).map StunServer.endpoint).Nodup := by
    induction list with
    | nil => exact fun out hout => hout
    | cons entry list ih => exact fun out hout => ih _ (hone out entry hout)
  exact hall [] List.nodup_nil

/-! ## Names -/

theorem tailIndex_iff {name front : Bytes} {i : ℕ} :
    tailIndex name front = some i ↔ i ≤ 9999999999 ∧ name = front ++ decimal i := by
  unfold tailIndex
  constructor
  · intro h
    split_ifs at h with hfront
    rw [not_not] at hfront
    obtain ⟨hi, htail⟩ := (parseDecimal_eq_some_iff (by decide) (by decide)).mp h
    refine ⟨hi, ?_⟩
    rw [← htail]
    conv_lhs => rw [← List.take_append_drop front.length name, hfront]
  · rintro ⟨hi, rfl⟩
    rw [List.take_left, if_neg (not_not.mpr rfl), List.drop_left]
    exact (parseDecimal_eq_some_iff (by decide) (by decide)).mpr ⟨hi, rfl⟩

theorem retryTimer_injective {i j : ℕ} (h : retryTimer i = retryTimer j) : i = j :=
  decimal_injective (List.append_cancel_left h)

theorem deadlineTimer_injective {i j : ℕ} (h : deadlineTimer i = deadlineTimer j) : i = j :=
  decimal_injective (List.append_cancel_left h)

theorem retryTimer_ne_deadlineTimer (i j : ℕ) : retryTimer i ≠ deadlineTimer j := by
  intro h
  have hfront := congrArg (List.take 6) h
  unfold retryTimer deadlineTimer at hfront
  rw [List.take_append_of_le_length (by decide),
    List.take_append_of_le_length (by decide)] at hfront
  exact absurd hfront (by decide)

def Owned (name : Bytes) : Prop := ∃ i, name = retryTimer i ∨ name = deadlineTimer i

/-- The name of a timer of the server at `i`. -/
def OwnedAt (i : ℕ) (name : Bytes) : Prop := name = retryTimer i ∨ name = deadlineTimer i

theorem OwnedAt.unique {i j : ℕ} {name : Bytes} (hi : OwnedAt i name)
    (hj : OwnedAt j name) : i = j := by
  rcases hi with rfl | rfl <;> rcases hj with hj | hj
  · exact retryTimer_injective hj
  · exact absurd hj (retryTimer_ne_deadlineTimer _ _)
  · exact absurd hj.symm (retryTimer_ne_deadlineTimer _ _)
  · exact deadlineTimer_injective hj

/-! ## Slots -/

theorem findSlot_some {c : Client} {i : ℕ} {k : Fin stunConcurrency} (h : c.findSlot i = some k) :
    (c.slots k).active = true ∧ (c.slots k).serverIndex = i := by
  have hk := List.find?_some h
  rw [Bool.and_eq_true, decide_eq_true_eq] at hk
  exact hk

theorem findTransaction_some {c : Client} {id : TransactionId} {k : Fin stunConcurrency}
    (h : c.findTransaction id = some k) :
    (c.slots k).active = true ∧ (c.slots k).transaction = id := by
  have hk := List.find?_some h
  rw [Bool.and_eq_true, decide_eq_true_eq] at hk
  exact hk

theorem findTransaction_none {c : Client} {id : TransactionId} (h : c.findTransaction id = none)
    (k : Fin stunConcurrency) (hk : (c.slots k).active = true) :
    (c.slots k).transaction ≠ id := by
  intro hid
  have hnone := List.find?_eq_none.mp h k (List.mem_finRange k)
  rw [hk, hid, decide_eq_true rfl] at hnone
  exact hnone rfl

theorem freeSlot_some {c : Client} {k : Fin stunConcurrency} (h : c.freeSlot = some k) :
    (c.slots k).active = false := by
  have hk := List.find?_some h
  simpa using hk

def Client.Quiet (c : Client) : Prop := ∀ k, (c.slots k).active = false

theorem inFlight_eq_zero {c : Client} : c.inFlight = 0 ↔ c.Quiet := by
  unfold Client.inFlight Client.Quiet
  rw [List.countP_eq_zero]
  constructor
  · exact fun h k => Bool.eq_false_iff.mpr (h k (List.mem_finRange k))
  · exact fun h k _ => Bool.eq_false_iff.mp (h k)

theorem inFlight_full {c : Client} (h : stunConcurrency ≤ c.inFlight) (k : Fin stunConcurrency) :
    (c.slots k).active = true := by
  have hall : c.inFlight = (List.finRange stunConcurrency).length := by
    apply Nat.le_antisymm List.countP_le_length
    rw [List.length_finRange]
    exact h
  exact List.countP_eq_length.mp hall k (List.mem_finRange k)

theorem inFlight_of_freeSlot {c : Client} (h : c.freeSlot = none) (k : Fin stunConcurrency) :
    (c.slots k).active = true := by
  have hk := List.find?_eq_none.mp h k (List.mem_finRange k)
  simpa using hk

/-! ## Moves -/

inductive Move (random : ℕ → Option TransactionId) (now : Millis) : Client → Client → Prop where
  | count (c) : Move random now c c.countDrop
  | drawFailed (c) : c.nextServer < c.servers.length → random c.draws = none →
      Move random now c
        { c with nextServer := c.nextServer + 1, draws := c.draws + 1, phase := .failed }
  | launch (c k T) : c.phase ≠ .failed → (c.slots k).active = false →
    c.nextServer < c.servers.length →
      random c.draws = some T →
      Move random now c
        (({ c with nextServer := c.nextServer + 1, draws := c.draws + 1 } : Client).launched k
          c.nextServer T now)
  | release (c k) : (c.slots k).active = true → Move random now c (c.release k)
  | resend (c k) : c.phase ≠ .failed → (c.slots k).active = true → (c.slots k).sent < 4 →
      Move random now c (c.resend k now)
  | mapped (c m) : Move random now c { c with mappings := c.mappings ++ [m] }
  | phase (c p) : c.phase ≠ .failed → p ≠ .idle → Move random now c { c with phase := p }

abbrev Moves (random : ℕ → Option TransactionId) (now : Millis) : Client → Client → Prop :=
  Relation.ReflTransGen (Move random now)

/-- Every request comes behind a request to each server before its own. -/
def InOrder (sends : List Request) : Prop :=
  ∀ before r after, sends = before ++ r :: after → ∀ j < r.server, ∃ q ∈ before, q.server = j

theorem InOrder.snoc {sends : List Request} {r : Request} (h : InOrder sends)
    (hr : ∀ j < r.server, ∃ q ∈ sends, q.server = j) : InOrder (sends ++ [r]) := by
  intro before x after heq j hj
  rcases List.eq_nil_or_concat after with rfl | ⟨front, last, rfl⟩
  · obtain ⟨rfl, hx⟩ := List.append_inj' heq rfl
    obtain rfl := List.singleton_inj.mp hx
    exact hr j hj
  · rw [List.concat_eq_append, ← List.cons_append, ← List.append_assoc] at heq
    obtain ⟨hsends, -⟩ := List.append_inj' heq rfl
    exact h before x front hsends j hj

/-- How many requests went to the server at `i`. -/
def sentTo (sends : List Request) (i : ℕ) : ℕ := sends.countP (·.server = i)

theorem sentTo_snoc (sends : List Request) (r : Request) (i : ℕ) :
    sentTo (sends ++ [r]) i = sentTo sends i + if r.server = i then 1 else 0 := by
  unfold sentTo
  rw [List.countP_append, List.countP_singleton]
  simp only [decide_eq_true_eq]

def Proper (random : ℕ → Option TransactionId) (servers : List StunServer) (r : Request) : Prop :=
  ∃ server T, servers[r.server]? = some server ∧ random r.server = some T ∧
    r = ⟨r.server, server.endpoint, buildBindingRequest T⟩

structure Safe (random : ℕ → Option TransactionId) (c : Client) : Prop where
  idle : Idle c.timers
  drawn : c.draws = c.nextServer
  bound : c.nextServer ≤ c.servers.length
  below : ∀ k, (c.slots k).active = true → (c.slots k).serverIndex < c.nextServer
  holds : ∀ k, (c.slots k).active = true →
    random (c.slots k).serverIndex = some (c.slots k).transaction
  sent : ∀ k, (c.slots k).active = true → (c.slots k).sent ≤ 4 ∧
    sentTo c.sends (c.slots k).serverIndex = (c.slots k).sent
  distinct : ∀ k k', (c.slots k).active = true → (c.slots k').active = true →
    (c.slots k).serverIndex = (c.slots k').serverIndex → k = k'
  owned : ∀ t ∈ c.timers.timers, ∀ i, OwnedAt i t.name → ∃ k, (c.slots k).active = true ∧
    (c.slots k).serverIndex = i
  once : ∀ t ∈ c.timers.timers, Owned t.name → t.repeating = false
  proper : ∀ r ∈ c.sends, r.server < c.nextServer ∧ Proper random c.servers r
  few : ∀ i, sentTo c.sends i ≤ 4
  order : InOrder c.sends
  covered : c.phase ≠ .failed → ∀ i < c.nextServer, ∃ q ∈ c.sends, q.server = i

theorem release_eq (c : Client) (k : Fin stunConcurrency) :
    c.release k = { c with
      slots := Function.update c.slots k { c.slots k with active := false, sent := 0 }
      resolved := c.resolved ++ [(c.slots k).transaction]
      timers := ((c.timers.cancel (retryTimer (c.slots k).serverIndex)).1.cancel
        (deadlineTimer (c.slots k).serverIndex)).1 } := rfl

theorem mem_release {c : Client} (h : Idle c.timers) {k : Fin stunConcurrency} {t : Timer Bytes} :
    t ∈ (c.release k).timers.timers ↔
      t ∈ c.timers.timers ∧ ¬OwnedAt (c.slots k).serverIndex t.name := by
  rw [release_eq]
  dsimp only
  rw [mem_cancel (idle_cancel h _), mem_cancel h, and_assoc]
  exact and_congr_right fun _ => not_or.symm

theorem release_idle {c : Client} (h : Idle c.timers) (k : Fin stunConcurrency) :
    Idle (c.release k).timers :=
  idle_cancel (idle_cancel h _) _

theorem release_other {c : Client} {k k' : Fin stunConcurrency} (h : k' ≠ k) :
    (c.release k).slots k' = c.slots k' :=
  Function.update_of_ne h _ _

theorem release_active {c : Client} {k k' : Fin stunConcurrency} :
    ((c.release k).slots k').active = true ↔ k' ≠ k ∧ (c.slots k').active = true := by
  by_cases h : k' = k
  · subst h
    have hself : (c.release k').slots k' = { c.slots k' with active := false, sent := 0 } :=
      Function.update_self ..
    rw [hself]
    simp
  · rw [release_other h]
    exact ⟨fun hk => ⟨h, hk⟩, And.right⟩

theorem Safe.release {random : ℕ → Option TransactionId} {c : Client} (h : Safe random c)
    (k : Fin stunConcurrency) :
    Safe random (c.release k) := by
  refine ⟨release_idle h.idle k, h.drawn, h.bound, fun k' hk' => ?_, fun k' hk' => ?_,
    fun k' hk' => ?_,
    fun k₁ k₂ h₁ h₂ heq => ?_, fun t ht i hi => ?_, fun t ht =>
      h.once t ((mem_release h.idle).mp ht).1, h.proper,
    h.few, h.order, h.covered⟩
  · obtain ⟨hne, hold⟩ := release_active.mp hk'
    rw [release_other hne]
    exact h.below k' hold
  · obtain ⟨hne, hold⟩ := release_active.mp hk'
    rw [release_other hne]
    exact h.holds k' hold
  · obtain ⟨hne, hold⟩ := release_active.mp hk'
    rw [release_other hne]
    exact h.sent k' hold
  · obtain ⟨hne₁, hold₁⟩ := release_active.mp h₁
    obtain ⟨hne₂, hold₂⟩ := release_active.mp h₂
    rw [release_other hne₁, release_other hne₂] at heq
    exact h.distinct k₁ k₂ hold₁ hold₂ heq
  · obtain ⟨hmem, hother⟩ := (mem_release h.idle).mp ht
    obtain ⟨k', hk', rfl⟩ := h.owned t hmem i hi
    have hne : k' ≠ k := by
      rintro rfl
      exact hother hi
    exact ⟨k', release_active.mpr ⟨hne, hk'⟩, by rw [release_other hne]⟩

theorem sentTo_pos {sends : List Request} {i : ℕ} : 0 < sentTo sends i ↔
      ∃ q ∈ sends, q.server = i := by
  unfold sentTo
  rw [List.countP_pos_iff]
  simp only [decide_eq_true_eq]

theorem Safe.unsent {random : ℕ → Option TransactionId} {c : Client} (h : Safe random c) {i : ℕ}
    (hi : c.nextServer ≤ i) :
    sentTo c.sends i = 0 := by
  by_contra hsent
  obtain ⟨q, hq, rfl⟩ := sentTo_pos.mp (Nat.pos_of_ne_zero hsent)
  exact absurd (h.proper q hq).1 (by omega)

theorem Safe.server {random : ℕ → Option TransactionId} {c : Client} (h : Safe random c)
    {k : Fin stunConcurrency} (hk : (c.slots k).active = true) :
    ∃ server, c.servers[(c.slots k).serverIndex]? = some server := by
  have hlt := (h.below k hk).trans_le h.bound
  exact ⟨_, List.getElem?_eq_getElem hlt⟩

theorem launched_eq {c : Client} {k : Fin stunConcurrency} {i : ℕ} {T : TransactionId}
    {now : Millis} {server : StunServer} (h : c.servers[i]? = some server) :
    c.launched k i T now = { c with
      slots := Function.update c.slots k ⟨true, i, T, 1⟩
      sends := c.sends ++ [⟨i, server.endpoint, buildBindingRequest T⟩]
      timers :=
        ((c.timers.addOnce (retryTimer i) 500 now).1.addOnce
          (deadlineTimer i) stunDeadlineMs now).1 } := by
  unfold Client.launched Client.sendRequest Client.setSlot
  dsimp only
  rw [Function.update_self, h]
  rfl

theorem resend_eq {c : Client} {k : Fin stunConcurrency} {now : Millis} {server : StunServer}
    (h : c.servers[(c.slots k).serverIndex]? = some server) :
    c.resend k now = { c with
      slots := Function.update c.slots k { c.slots k with sent := (c.slots k).sent + 1 }
      sends := c.sends ++
        [⟨(c.slots k).serverIndex, server.endpoint, buildBindingRequest (c.slots k).transaction⟩]
      timers := if (c.slots k).sent + 1 < stunRetryIntervalsMs.length + 1 then
        (c.timers.addOnce (retryTimer (c.slots k).serverIndex)
          (stunRetryIntervalsMs.getD (c.slots k).sent 0) now).1
        else c.timers } := by
  unfold Client.resend Client.sendRequest Client.setSlot
  rw [h]
  dsimp only
  split_ifs
  · unfold Client.addOnce
    dsimp only
    rw [Function.update_self, Nat.add_sub_cancel]
  · rfl

theorem sendRequest_same (c : Client) (k : Fin stunConcurrency) :
    ∃ sends, c.sendRequest k = { c with sends := sends } := by
  unfold Client.sendRequest
  split
  · exact ⟨c.sends, rfl⟩
  · exact ⟨_, rfl⟩

/-- A request changes nothing but slots, timers and what was sent. -/
theorem launched_same (c : Client) (k : Fin stunConcurrency) (i : ℕ) (T : TransactionId)
    (now : Millis) :
    ∃ slots sends timers, c.launched k i T now =
      { c with slots := slots, sends := sends, timers := timers } := by
  obtain ⟨sends, hsends⟩ := sendRequest_same (c.setSlot k ⟨true, i, T, 1⟩) k
  unfold Client.launched
  rw [hsends]
  exact ⟨_, _, _, rfl⟩

theorem resend_same (c : Client) (k : Fin stunConcurrency) (now : Millis) :
    ∃ slots sends timers, c.resend k now =
      { c with slots := slots, sends := sends, timers := timers } := by
  obtain ⟨sends, hsends⟩ := sendRequest_same c k
  unfold Client.resend
  rw [hsends]
  dsimp only
  split_ifs
  · exact ⟨_, _, _, rfl⟩
  · exact ⟨_, _, _, rfl⟩

/-- What a request for the server at `i` changes. -/
structure Asks (c c' : Client) (k : Fin stunConcurrency) (i : ℕ) (T : TransactionId)
    (server : StunServer) : Prop where
  servers : c'.servers = c.servers
  self : c'.slots k = ⟨true, i, T, sentTo c.sends i + 1⟩
  other : ∀ k', k' ≠ k → c'.slots k' = c.slots k'
  sends : c'.sends = c.sends ++ [⟨i, server.endpoint, buildBindingRequest T⟩]
  idle : Idle c.timers → Idle c'.timers
  timers : ∀ t ∈ c'.timers.timers, t ∈ c.timers.timers ∨ OwnedAt i t.name ∧ t.repeating = false
  phase : c'.phase = c.phase

theorem launched_asks {random : ℕ → Option TransactionId} {c : Client} (h : Safe random c)
    (k : Fin stunConcurrency) (T : TransactionId) (now : Millis)
    (hnext : c.nextServer < c.servers.length) :
    Asks c
      (({ c with nextServer := c.nextServer + 1, draws := c.draws + 1 } : Client).launched k
        c.nextServer T now) k
      c.nextServer T c.servers[c.nextServer] := by
  have hserver :
    ({ c with nextServer := c.nextServer + 1, draws := c.draws + 1 }
      : Client).servers[c.nextServer]? =
      some c.servers[c.nextServer] := List.getElem?_eq_getElem hnext
  rw [launched_eq hserver]
  refine ⟨rfl, ?_, fun k' hne => Function.update_of_ne hne _ _, rfl, fun hidle => ?_,
    fun t ht => ?_, rfl⟩
  · rw [h.unsent (le_refl _)]
    exact Function.update_self ..
  · exact idle_addOnce (idle_addOnce hidle _ _ _) _ _ _
  · rcases mem_addOnce.mp ht with hmem | ⟨-, rfl⟩
    · rcases mem_addOnce.mp hmem with hmem | ⟨-, rfl⟩
      · exact .inl hmem
      · exact .inr ⟨.inl rfl, rfl⟩
    · exact .inr ⟨.inr rfl, rfl⟩

theorem resend_asks {random : ℕ → Option TransactionId} {c : Client} (h : Safe random c)
    {k : Fin stunConcurrency} (hk : (c.slots k).active = true) (now : Millis) :
    ∃ server, c.servers[(c.slots k).serverIndex]? = some server ∧
      Asks c (c.resend k now) k (c.slots k).serverIndex (c.slots k).transaction server := by
  obtain ⟨server, hserver⟩ := h.server hk
  refine ⟨server, hserver, ?_⟩
  rw [resend_eq hserver]
  refine ⟨rfl, ?_, fun k' hne => Function.update_of_ne hne _ _, rfl, fun hidle => ?_,
    fun t ht => ?_, rfl⟩
  · dsimp only
    rw [Function.update_self, (h.sent k hk).2]
    cases hslot : c.slots k with
    | mk active serverIndex transaction sent =>
      rw [hslot] at hk
      cases hk
      rfl
  · dsimp only
    split_ifs
    · exact idle_addOnce hidle _ _ _
    · exact hidle
  · dsimp only at ht
    split_ifs at ht
    · rcases mem_addOnce.mp ht with hmem | ⟨-, rfl⟩
      · exact .inl hmem
      · exact .inr ⟨.inl rfl, rfl⟩
    · exact .inl ht

/-- A request keeps the invariant when its server has room for one more and every server before it
was asked. -/
theorem Asks.safe {random : ℕ → Option TransactionId} {c c' : Client}
    {k : Fin stunConcurrency} {i : ℕ} {T : TransactionId} {server : StunServer}
    (hasks : Asks c c' k i T server) (h : Safe random c)
    (hserver : c.servers[i]? = some server) (hdraw : random i = some T)
    (hroom : sentTo c.sends i < 4) (hdrawn : c'.draws = c'.nextServer)
    (hbound : c'.nextServer ≤ c.servers.length)
    (hgrown : c.nextServer ≤ c'.nextServer) (hbelow : i < c'.nextServer)
    (halone : ∀ k', (c.slots k').active = true → (c.slots k').serverIndex = i → k' = k)
    (hbusy : (c.slots k).active = true → (c.slots k).serverIndex = i)
    (hearlier : ∀ j < i, ∃ q ∈ c.sends, q.server = j)
    (hcovered : c.phase ≠ .failed → ∀ j < c'.nextServer, j = i ∨ j < c.nextServer) :
    Safe random c' := by
  have hself : (c'.slots k).active = true ∧ (c'.slots k).serverIndex = i ∧
    (c'.slots k).transaction = T := by
    rw [hasks.self]
    exact ⟨rfl, rfl, rfl⟩
  have hold : ∀ k', k' ≠ k → (c'.slots k').active = true → (c.slots k').active = true ∧
    (c.slots k').serverIndex ≠ i := by
    intro k' hne hk'
    rw [hasks.other k' hne] at hk'
    exact ⟨hk', fun heq => hne (halone k' hk' heq)⟩
  refine ⟨hasks.idle h.idle, hdrawn, hasks.servers ▸ hbound, fun k' hk' => ?_, fun k' hk' => ?_,
    fun k' hk' => ?_,
    fun k₁ k₂ h₁ h₂ heq => ?_, fun t ht j hj => ?_, fun t ht howned => ?_, fun r hr =>
      ?_, fun j => ?_, ?_,
    fun hphase j hj => ?_⟩
  · by_cases hne : k' = k
    · subst hne
      rw [hself.2.1]
      exact hbelow
    · rw [hasks.other k' hne]
      exact (h.below k' (hold k' hne hk').1).trans_le hgrown
  · by_cases hne : k' = k
    · subst hne
      rw [hself.2.1, hself.2.2]
      exact hdraw
    · rw [hasks.other k' hne]
      exact h.holds k' (hold k' hne hk').1
  · rw [hasks.sends]
    by_cases hne : k' = k
    · subst hne
      rw [hasks.self, sentTo_snoc, if_pos rfl]
      exact ⟨hroom, rfl⟩
    · obtain ⟨hactive, hother⟩ := hold k' hne hk'
      rw [hasks.other k' hne, sentTo_snoc, if_neg hother.symm]
      exact h.sent k' hactive
  · by_cases hne₁ : k₁ = k <;> by_cases hne₂ : k₂ = k
    · rw [hne₁, hne₂]
    · subst hne₁
      rw [hself.2.1, hasks.other k₂ hne₂] at heq
      exact absurd heq.symm (hold k₂ hne₂ h₂).2
    · subst hne₂
      rw [hself.2.1, hasks.other k₁ hne₁] at heq
      exact absurd heq (hold k₁ hne₁ h₁).2
    · rw [hasks.other k₁ hne₁, hasks.other k₂ hne₂] at heq
      exact h.distinct k₁ k₂ (hold k₁ hne₁ h₁).1 (hold k₂ hne₂ h₂).1 heq
  · rcases hasks.timers t ht with hmem | hnew
    · obtain ⟨k', hk', rfl⟩ := h.owned t hmem j hj
      by_cases hne : k' = k
      · subst hne
        exact ⟨k', hself.1, hself.2.1.trans (hbusy hk').symm⟩
      · rw [← hasks.other k' hne] at hk'
        exact ⟨k', hk', by rw [hasks.other k' hne]⟩
    · exact ⟨k, hself.1, hself.2.1.trans (hj.unique hnew.1).symm⟩
  · rcases hasks.timers t ht with hmem | hnew
    · exact h.once t hmem howned
    · exact hnew.2
  · rw [hasks.sends] at hr
    rw [hasks.servers]
    rcases List.mem_append.mp hr with hr | hr
    · obtain ⟨hlt, hproper⟩ := h.proper r hr
      exact ⟨hlt.trans_le hgrown, hproper⟩
    · obtain rfl := List.mem_singleton.mp hr
      exact ⟨hbelow, server, T, hserver, hdraw, rfl⟩
  · rw [hasks.sends, sentTo_snoc]
    split_ifs with hi
    · subst hi
      exact hroom
    · exact h.few j
  · rw [hasks.sends]
    exact h.order.snoc hearlier
  · rw [hasks.phase] at hphase
    rw [hasks.sends]
    rcases hcovered hphase j hj with rfl | hj
    · exact ⟨_, List.mem_append_right _ (List.mem_singleton_self _), rfl⟩
    · obtain ⟨q, hq, hqj⟩ := h.covered hphase j hj
      exact ⟨q, List.mem_append_left _ hq, hqj⟩

theorem Move.safe {random : ℕ → Option TransactionId} {now : Millis} {c c' : Client}
    (hmove : Move random now c c') (h : Safe random c) :
    Safe random c' := by
  cases hmove with
  | count =>
    exact ⟨h.idle, h.drawn, h.bound, h.below, h.holds, h.sent, h.distinct, h.owned, h.once,
      h.proper, h.few,
      h.order, h.covered⟩
  | drawFailed hnext hnone =>
    refine ⟨h.idle, congrArg Nat.succ h.drawn, hnext,
      fun k hk => (h.below k hk).trans (Nat.lt_succ_self _), h.holds,
      h.sent, h.distinct, h.owned, h.once, fun r hr => ?_, h.few, h.order, fun hphase =>
      absurd rfl hphase⟩
    exact ⟨(h.proper r hr).1.trans (Nat.lt_succ_self _), (h.proper r hr).2⟩
  | launch k T hphase hk hnext hdraw =>
    rw [h.drawn] at hdraw
    have hasks := launched_asks h k T now hnext
    obtain ⟨_, _, _, hsame⟩ := launched_same
      ({ c with nextServer := c.nextServer + 1, draws := c.draws + 1 } : Client) k
        c.nextServer T now
    rw [hsame] at hasks ⊢
    have hfresh : sentTo c.sends c.nextServer = 0 := h.unsent (le_refl _)
    refine hasks.safe h (List.getElem?_eq_getElem hnext) hdraw (by omega)
      (congrArg Nat.succ h.drawn) hnext
      (Nat.le_succ _) (Nat.lt_succ_self _) (fun k' hk' heq => ?_) (fun hbusy => ?_)
      (h.covered hphase)
      (fun _ j hj => (Nat.lt_succ_iff_lt_or_eq.mp hj).symm)
    · exact absurd heq (h.below k' hk').ne
    · rw [hk] at hbusy
      cases hbusy
  | release k hk => exact h.release k
  | resend k hphase hk hsent =>
    obtain ⟨server, hserver, hasks⟩ := resend_asks h hk now
    obtain ⟨_, _, _, hsame⟩ := resend_same c k now
    rw [hsame] at hasks ⊢
    have hlt := h.below k hk
    have hroom : sentTo c.sends (c.slots k).serverIndex < 4 := by
      rw [(h.sent k hk).2]
      exact hsent
    exact hasks.safe h hserver (h.holds k hk) hroom h.drawn h.bound (le_refl _) hlt
      (fun k' hk' heq => h.distinct k' k hk' hk heq) (fun _ => rfl)
      (fun j hj => h.covered hphase j (hj.trans hlt))
      (fun _ j hj => .inr hj)
  | mapped m =>
    exact ⟨h.idle, h.drawn, h.bound, h.below, h.holds, h.sent, h.distinct, h.owned, h.once,
      h.proper, h.few,
      h.order, h.covered⟩
  | phase p hphase _ =>
    exact ⟨h.idle, h.drawn, h.bound, h.below, h.holds, h.sent, h.distinct, h.owned, h.once,
      h.proper, h.few, h.order,
      fun _ => h.covered hphase⟩

theorem Moves.safe {random : ℕ → Option TransactionId} {now : Millis} {c c' : Client}
    (hmoves : Moves random now c c') (h : Safe random c) :
    Safe random c' := by
  induction hmoves with
  | refl => exact h
  | tail _ hmove ih => exact hmove.safe ih

/-! ## The end of a stage -/

theorem releaseActive_phase (c : Client) (p : StunPhase) (k : Fin stunConcurrency) :
    ({ c with phase := p } : Client).releaseActive k = { c.releaseActive k with phase := p } := by
  unfold Client.releaseActive
  dsimp only
  split_ifs <;> rfl

theorem releaseAll_phase (c : Client) (p : StunPhase) :
    ({ c with phase := p } : Client).releaseAll = { c.releaseAll with phase := p } := by
  unfold Client.releaseAll
  induction List.finRange stunConcurrency generalizing c with
  | nil => rfl
  | cons k ks ih => rw [List.foldl_cons, List.foldl_cons, releaseActive_phase, ih]

/-- What the release of the slots in `ks` leaves. -/
structure Released (random : ℕ → Option TransactionId) (now : Millis)
    (ks : List (Fin stunConcurrency)) (c c' : Client) :
    Prop where
  moves : Moves random now c c'
  quiet : ∀ k, k ∈ ks ∨ (c.slots k).active = false → (c'.slots k).active = false
  same : ∃ slots resolved timers,
    c' = { c with slots := slots, resolved := resolved, timers := timers }

theorem foldl_released (random : ℕ → Option TransactionId) (now : Millis)
    (ks : List (Fin stunConcurrency)) (c : Client) :
    Released random now ks c (ks.foldl Client.releaseActive c) := by
  induction ks generalizing c with
  | nil => exact ⟨.refl, fun k hk => hk.resolve_left List.not_mem_nil, _, _, _, rfl⟩
  | cons k ks ih =>
    rw [List.foldl_cons]
    have hrest := ih (c.releaseActive k)
    obtain ⟨slots, resolved, timers, hsame⟩ := hrest.same
    by_cases hk : (c.slots k).active = true
    · have hone : c.releaseActive k = c.release k := if_pos hk
      rw [hone] at hrest hsame ⊢
      refine ⟨(Relation.ReflTransGen.single (.release c k hk)).trans hrest.moves, fun k' hk' => ?_,
        slots, resolved, timers, hsame⟩
      apply hrest.quiet
      by_cases hne : k' = k
      · right
        by_contra hactive
        exact (release_active.mp (Bool.not_eq_false _ ▸ hactive)).1 hne
      · rcases hk' with hk' | hk'
        · exact .inl ((List.mem_cons.mp hk').resolve_left hne)
        · right
          rw [release_other hne]
          exact hk'
    · have hone : c.releaseActive k = c := if_neg hk
      rw [hone] at hrest hsame ⊢
      refine ⟨hrest.moves, fun k' hk' => hrest.quiet k' ?_, slots, resolved, timers, hsame⟩
      rcases hk' with hk' | hk'
      · rcases List.mem_cons.mp hk' with rfl | hk'
        · exact .inr (Bool.eq_false_iff.mpr hk)
        · exact .inl hk'
      · exact .inr hk'

theorem releaseAll_released (random : ℕ → Option TransactionId) (now : Millis) (c : Client) :
    Moves random now c c.releaseAll ∧ c.releaseAll.Quiet ∧
      ∃ slots resolved timers, c.releaseAll =
        { c with slots := slots, resolved := resolved, timers := timers } := by
  have h := foldl_released random now (List.finRange stunConcurrency) c
  exact ⟨h.moves, fun k => h.quiet k (.inl (List.mem_finRange k)), h.same⟩

/-- Where a client stands between two calls. -/
inductive Stage (random : ℕ → Option TransactionId) (c : Client) : Prop
  | idle : c.phase = .idle → c.nextServer = 0 → c.Quiet → c.mappings = [] → Stage random c
  | running : c.phase = .running → 2 ≤ c.servers.length → c.mappings.length < 2 → ¬c.Quiet →
      (c.nextServer < c.servers.length → ∀ k, (c.slots k).active = true) → Stage random c
  | succeeded : c.phase = .succeeded → 2 ≤ c.mappings.length → c.Quiet → Stage random c
  | failed : c.phase = .failed → c.mappings.length < 2 → c.Quiet →
      (c.servers.length < 2 ∨ (∃ i < c.nextServer, random i = none) ∨
        c.nextServer = c.servers.length) → Stage random c

/-- How the loop of `refill` ends. -/
inductive Filled (random : ℕ → Option TransactionId) (now : Millis) (c : Client) :
    Client × Bool → Prop
  | ready (c' : Client) : Moves random now c c' → c'.mappings = c.mappings → c'.phase = c.phase →
      c'.servers = c.servers →
      (2 ≤ c.mappings.length ∨ (∀ k, (c'.slots k).active = true) ∨
        c'.nextServer = c'.servers.length) →
      Filled random now c (c', true)
  | failed (c' : Client) : Moves random now c c' → c'.mappings = c.mappings →
    c.mappings.length < 2 →
      c'.phase = .failed → c'.Quiet → (∃ i < c'.nextServer, random i = none) →
      Filled random now c (c', false)

theorem fill_filled {random : ℕ → Option TransactionId} (now : Millis) (rounds : ℕ) {c : Client}
    (h : Safe random c) (hphase : c.phase ≠ .failed)
    (hrounds : c.servers.length ≤ c.nextServer + rounds) :
    Filled random now c (c.fill random now rounds) := by
  induction rounds generalizing c with
  | zero => exact .ready c .refl rfl rfl rfl (.inr (.inr (le_antisymm h.bound hrounds)))
  | succ rounds ih =>
    unfold Client.fill
    split_ifs with hcond
    · obtain ⟨hfew, hroom, hnext⟩ := hcond
      cases hfree : c.freeSlot with
      | none => exact .ready c .refl rfl rfl rfl (.inr (.inl (inFlight_of_freeSlot hfree)))
      | some k =>
        dsimp only
        unfold Client.beginQuery
        cases hdraw : random c.draws with
        | none =>
          dsimp only
          have hfail :
            ({ c with nextServer := c.nextServer + 1, draws := c.draws + 1 } : Client).fail =
              ({ c with nextServer := c.nextServer + 1, draws := c.draws + 1, phase := .failed }
                : Client).releaseAll :=
            (releaseAll_phase _ _).symm
          rw [hfail]
          obtain ⟨hmoves, hquiet, slots, resolved, timers, hsame⟩ := releaseAll_released random now
            ({ c with nextServer := c.nextServer + 1, draws := c.draws + 1, phase := .failed }
              : Client)
          refine .failed _ ((Relation.ReflTransGen.single (.drawFailed c hnext hdraw)).trans hmoves)
            ?_ hfew ?_ hquiet ?_
          · rw [hsame]
          · rw [hsame]
          · rw [hsame]
            exact ⟨c.nextServer, Nat.lt_succ_self _, h.drawn ▸ hdraw⟩
        | some T =>
          dsimp only
          have hmove : Move random now c
            (({ c with nextServer := c.nextServer + 1, draws := c.draws + 1 } : Client).launched
              k c.nextServer T now) := .launch c k T hphase (freeSlot_some hfree) hnext hdraw
          have hsafe := hmove.safe h
          obtain ⟨slots, sends, timers, hsame⟩ := launched_same
            ({ c with nextServer := c.nextServer + 1, draws := c.draws + 1 } : Client) k
              c.nextServer T now
          rw [hsame] at hmove hsafe ⊢
          have hnext' : c.servers.length ≤ c.nextServer + 1 + rounds := by omega
          have hrest := ih hsafe hphase hnext'
          generalize Client.fill random now rounds _ = result at hrest
          cases hrest with
          | ready c' hmoves hmappings hphase' hservers hend =>
            exact .ready c' ((Relation.ReflTransGen.single hmove).trans hmoves) hmappings
              hphase' hservers hend
          | failed c' hmoves hmappings hfew' hphase' hquiet hnone =>
            exact .failed c' ((Relation.ReflTransGen.single hmove).trans hmoves) hmappings hfew
              hphase' hquiet hnone
    · refine .ready c .refl rfl rfl rfl ?_
      by_cases hmany : 2 ≤ c.mappings.length
      · exact .inl hmany
      · by_cases hbusy : c.inFlight < stunConcurrency
        · right; right
          apply le_antisymm h.bound
          exact Nat.not_lt.mp fun hnext => hcond ⟨Nat.not_le.mp hmany, hbusy, hnext⟩
        · exact .inr (.inl (inFlight_full (Nat.not_lt.mp hbusy)))

/-- A call that fills the slots ends in a stage of the same mappings. -/
structure Refilled (random : ℕ → Option TransactionId) (now : Millis) (c c' : Client) : Prop where
  moves : Moves random now c c'
  stage : Stage random c'
  started : c'.phase ≠ .idle
  mappings : c'.mappings = c.mappings

theorem refill_refilled {random : ℕ → Option TransactionId} (now : Millis) {c : Client}
    (h : Safe random c) (hdone : c.done = false) (hservers : 2 ≤ c.servers.length) :
    Refilled random now c (c.refill random now) := by
  have hphase : c.phase ≠ .failed := by
    intro hfailed
    unfold Client.done at hdone
    rw [hfailed] at hdone
    cases hdone
  unfold Client.refill
  rw [if_neg (by rw [hdone]; decide)]
  have hfill := fill_filled now c.servers.length h hphase (Nat.le_add_left _ _)
  generalize Client.fill random now c.servers.length c = result at hfill
  cases hfill with
  | failed c' hmoves hmappings hfew hfailed hquiet hnone =>
    dsimp only
    refine ⟨hmoves, .failed hfailed (hmappings ▸ hfew) hquiet (.inr (.inl hnone)), ?_, hmappings⟩
    rw [hfailed]
    decide
  | ready c' hmoves hmappings hphase' hsame hend =>
    dsimp only
    rw [← hsame] at hservers
    rw [← hphase'] at hphase
    split_ifs with hmany hnone
    · obtain ⟨hreleased, hquiet, slots, resolved, timers, hsame⟩ := releaseAll_released random now
        ({ c' with phase := .succeeded } : Client)
      have hmoves' := (hmoves.tail (.phase c' .succeeded hphase nofun)).trans hreleased
      rw [hsame] at hquiet hmoves' ⊢
      exact ⟨hmoves', .succeeded rfl hmany hquiet, nofun, hmappings⟩
    · have hfail : c'.fail = ({ c' with phase := .failed } : Client).releaseAll :=
        (releaseAll_phase _ _).symm
      rw [hfail]
      obtain ⟨hreleased, hquiet, slots, resolved, timers, hsame⟩ := releaseAll_released random now
        ({ c' with phase := .failed } : Client)
      have hmoves' := (hmoves.tail (.phase c' .failed hphase nofun)).trans hreleased
      have hidle := inFlight_eq_zero.mp hnone
      have hlast : c'.nextServer = c'.servers.length := by
        rcases hend with hend | hend | hend
        · rw [hmappings] at hmany
          exact absurd hend hmany
        · exact absurd (hend ⟨0, by decide⟩) (Bool.eq_false_iff.mp (hidle ⟨0, by decide⟩))
        · exact hend
      rw [hsame] at hquiet hmoves' ⊢
      exact ⟨hmoves', .failed rfl (Nat.not_le.mp hmany) hquiet (.inr (.inr hlast)),
        nofun, hmappings⟩
    · refine ⟨hmoves.tail (.phase c' .running hphase nofun),
        .running rfl hservers (Nat.not_le.mp hmany) ?_ ?_, nofun, hmappings⟩
      · exact fun hquiet => hnone (inFlight_eq_zero.mpr hquiet)
      · intro hnext
        rcases hend with hend | hend | hend
        · rw [hmappings] at hmany
          exact absurd hend hmany
        · exact hend
        · exact absurd hend hnext.ne

end Sangtachi.StunClient
