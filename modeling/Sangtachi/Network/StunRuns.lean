import Sangtachi.Network.StunStage

/-! # Runs of the STUN client

The loop starts the client, hands datagrams on and lets timers fire, in any order. A mapping stands
for a success response to the transaction of its server, and no server has two. -/
namespace Sangtachi.StunClient

open Sangtachi.BigEndian Sangtachi.Stun Sangtachi.Timers
open Sangtachi.Peer (Endpoint)
open Sangtachi.Lobby (Bytes ascii decimal)

/-! ## Success responses -/

/-- The datagram is a success response to the transaction, with this address. -/
def Maps (payload : List U8) (transaction : TransactionId) (mapped : Endpoint) : Prop :=
  ∃ attrs, IsResponse payload transaction attrs ∧
    Means (read16 payload 0) attrs ⟨.bindingSuccessResponse, some mapped, none⟩

theorem parse_means {payload : List U8} {transaction : TransactionId} {r : StunResponse} :
    parseBindingResponse (payload.length + 1) payload transaction = .ok r ↔
      ∃ attrs, IsResponse payload transaction attrs ∧ Means (read16 payload 0) attrs r := by
  have hparse : ∀ attrs, IsResponse payload transaction attrs →
      (parseBindingResponse (payload.length + 1) payload transaction = .ok r ↔
        Means (read16 payload 0) attrs r) := by
    intro attrs h
    obtain ⟨isSuccess, htype⟩ := h.responseType
    rw [parseBindingResponse, parse_response h htype (Nat.lt_succ_of_le h.rounds),
      attributes_means, htype]
  constructor
  · intro hr
    by_cases hresponse : ∃ attrs, IsResponse payload transaction attrs
    · obtain ⟨attrs, h⟩ := hresponse
      exact ⟨attrs, h, (hparse attrs h).mp hr⟩
    · obtain ⟨e, he⟩ := parse_refused (Nat.lt_succ_self _) hresponse
      rw [parseBindingResponse, he] at hr
      cases hr
  · rintro ⟨attrs, h, hmeans⟩
    exact (hparse attrs h).mpr hmeans

theorem isResponse_peek {payload : List U8} {transaction : TransactionId} {attrs : List Attribute}
    (h : IsResponse payload transaction attrs) :
    peekTransactionId payload = .ok (some transaction) := by
  have hid : transactionIdOf payload = transaction := by
    rw [← Vector.toList_inj, transactionIdOf_toList h.header]
    exact h.id
  have hlong : ¬payload.length < stunHeaderSize := Nat.not_lt.mpr h.header
  unfold peekTransactionId
  rw [if_neg hlong, hasStunLeadingBits_inside h.header, hasStunCookie_inside h.header,
    readTransactionId_inside h.header, hid, decide_eq_true h.leading, decide_eq_true h.cookie]
  rfl

/-- The servers that a datagram answers, with the address it has for them. -/
def Client.Gave (c : Client) (payload : List U8) (i : ℕ) (mapped : Endpoint) : Prop :=
  ∃ k, (c.slots k).active = true ∧ (c.slots k).serverIndex = i ∧
    Maps payload (c.slots k).transaction mapped

/-! ## Runs -/

inductive Event where
  | start (now : Millis)
  | datagram (payload : List U8) (now : Millis)
  | expired (t : Timer Bytes) (now : Millis)
  | others (timers : TimerSet Bytes)
    (now : Millis) -- the rest of the program arms and cancels timers of its own

def Event.now : Event → Millis
  | .start now | .datagram _ now | .expired _ now | .others _ now => now

def Client.entered (c : Client) : Event → Client
  | .start _ | .datagram _ _ => c
  | .expired t now => { c with timers := c.timers.enter now t }
  | .others timers _ => { c with timers := timers }

def Client.handle (random : ℕ → Option TransactionId) (c : Client) : Event → Client
  | .start now => (c.start random now).1
  | .datagram payload now => c.onDatagram random payload now
  | .expired t now => (c.entered (.expired t now)).onTimer random t.name now
  | .others timers now => c.entered (.others timers now)

def Client.Possible (c : Client) : Event → Prop
  | .start _ | .datagram _ _ => True
  | .expired t _ => t ∈ c.timers.timers ∧ Owned t.name
  | .others timers _ => Idle timers ∧ ∀ t, Owned t.name → (t ∈ timers.timers ↔ t ∈ c.timers.timers)

def Client.heard (c : Client) : Event → Set (ℕ × Endpoint)
  | .datagram payload _ => { p | c.Gave payload p.1 p.2 }
  | _ => ∅

/-- A run, with the answers that came while their transactions were open. -/
inductive Execution (random : ℕ → Option TransactionId) (c₀ : Client) : Set (ℕ × Endpoint) →
    Client → Prop where
  | refl : Execution random c₀ ∅ c₀
  | tail (answers c e) : Execution random c₀ answers c → c.Possible e →
      Execution random c₀ (answers ∪ c.heard e) (c.handle random e)

def Client.made (servers : List StunServer) (timers : TimerSet Bytes) : Client :=
  { servers := servers, timers := timers }

/-! ## What every move keeps -/

/-- The server at `i` was asked, and its transaction is over. -/
def Client.Closed (c : Client) (i : ℕ) : Prop :=
  i < c.nextServer ∧ ∀ k, (c.slots k).active = true → (c.slots k).serverIndex ≠ i

def Client.Known (random : ℕ → Option TransactionId) (c : Client) : Prop :=
  ∀ T ∈ c.resolved, ∃ i, c.Closed i ∧ random i = some T

variable {random : ℕ → Option TransactionId} {servers : List StunServer} {now : Millis}
  {c c' : Client}

theorem Move.servers_eq (hmove : Move random now c c') : c'.servers = c.servers := by
  cases hmove with
  | count => rfl
  | drawFailed => rfl
  | launch k T =>
    obtain ⟨_, _, _, hsame⟩ := launched_same
      ({ c with nextServer := c.nextServer + 1, draws := c.draws + 1 } : Client) k
        c.nextServer T now
    rw [hsame]
  | release k => rfl
  | resend k =>
    obtain ⟨_, _, _, hsame⟩ := resend_same c k now
    rw [hsame]
  | mapped m => rfl
  | phase p => rfl

theorem Move.closed (hmove : Move random now c c') (h : Safe random c) {i : ℕ} (hi : c.Closed i) :
    c'.Closed i := by
  cases hmove with
  | count => exact hi
  | drawFailed => exact ⟨hi.1.trans (Nat.lt_succ_self _), hi.2⟩
  | launch k T hphase hk hnext hdraw =>
    have hasks := launched_asks h k T now hnext
    obtain ⟨_, _, _, hsame⟩ := launched_same
      ({ c with nextServer := c.nextServer + 1, draws := c.draws + 1 } : Client) k
        c.nextServer T now
    rw [hsame] at hasks ⊢
    refine ⟨hi.1.trans (Nat.lt_succ_self _), fun k' hk' => ?_⟩
    by_cases hne : k' = k
    · subst hne
      rw [hasks.self]
      exact hi.1.ne'
    · rw [hasks.other k' hne] at hk' ⊢
      exact hi.2 k' hk'
  | release k hk =>
    refine ⟨hi.1, fun k' hk' => ?_⟩
    obtain ⟨hne, hold⟩ := release_active.mp hk'
    rw [release_other hne]
    exact hi.2 k' hold
  | resend k hphase hk hsent =>
    obtain ⟨server, hserver, hasks⟩ := resend_asks h hk now
    obtain ⟨_, _, _, hsame⟩ := resend_same c k now
    rw [hsame] at hasks ⊢
    refine ⟨hi.1, fun k' hk' => ?_⟩
    by_cases hne : k' = k
    · subst hne
      rw [hasks.self]
      exact hi.2 k' hk
    · rw [hasks.other k' hne] at hk' ⊢
      exact hi.2 k' hk'
  | mapped m => exact hi
  | phase p => exact hi

theorem release_closed (h : Safe random c) {k : Fin stunConcurrency}
    (hk : (c.slots k).active = true) :
    (c.release k).Closed (c.slots k).serverIndex := by
  refine ⟨h.below k hk, fun k' hk' heq => ?_⟩
  obtain ⟨hne, hold⟩ := release_active.mp hk'
  rw [release_other hne] at heq
  exact hne (h.distinct k' k hold hk heq)

theorem Move.known (hmove : Move random now c c') (h : Safe random c) (hknown : c.Known random) :
    c'.Known random := by
  have hold : ∀ T ∈ c.resolved, ∃ i, c'.Closed i ∧ random i = some T := by
    intro T hT
    obtain ⟨i, hi, hdraw⟩ := hknown T hT
    exact ⟨i, hmove.closed h hi, hdraw⟩
  have hsame : c'.resolved = c.resolved ∨
      ∃ k, (c.slots k).active = true ∧ c' = c.release k := by
    cases hmove with
    | count => exact .inl rfl
    | drawFailed => exact .inl rfl
    | launch k T =>
      obtain ⟨_, _, _, hsame⟩ := launched_same
        ({ c with nextServer := c.nextServer + 1, draws := c.draws + 1 } : Client) k
          c.nextServer T now
      rw [hsame]
      exact .inl rfl
    | release k hk => exact .inr ⟨k, hk, rfl⟩
    | resend k =>
      obtain ⟨_, _, _, hsame⟩ := resend_same c k now
      rw [hsame]
      exact .inl rfl
    | mapped m => exact .inl rfl
    | phase p => exact .inl rfl
  intro T hT
  rcases hsame with hsame | ⟨k, hk, rfl⟩
  · exact hold T (hsame ▸ hT)
  · rcases List.mem_append.mp hT with hT | hT
    · exact hold T hT
    · obtain rfl := List.mem_singleton.mp hT
      exact ⟨_, release_closed h hk, h.holds k hk⟩

/-- What a sequence of moves keeps. -/
structure Later (random : ℕ → Option TransactionId) (c c' : Client) : Prop where
  safe : Safe random c'
  servers : c'.servers = c.servers
  closed : ∀ i, c.Closed i → c'.Closed i
  known : c.Known random → c'.Known random

theorem Moves.later (hmoves : Moves random now c c') (h : Safe random c) : Later random c c' := by
  induction hmoves with
  | refl => exact ⟨h, rfl, fun _ hi => hi, fun hknown => hknown⟩
  | tail _ hmove ih =>
    exact ⟨hmove.safe ih.safe, hmove.servers_eq.trans ih.servers,
      fun i hi => hmove.closed ih.safe (ih.closed i hi),
      fun hknown => hmove.known ih.safe (ih.known hknown)⟩

/-! ## Answers -/

def Distinct (random : ℕ → Option TransactionId) : Prop := ∀ i j T, random i = some T →
    random j = some T → i = j

def Stands (servers : List StunServer) (m : StunMapping) (p : ℕ × Endpoint) : Prop :=
  ∃ server, servers[p.1]? = some server ∧ m = ⟨server.label, p.2⟩

/-- The mappings stand for answers of different servers, and for those of every server that has any.
-/
structure Credit (random : ℕ → Option TransactionId) (answers : Set (ℕ × Endpoint)) (c : Client)
    (credited : List (ℕ × Endpoint)) : Prop where
  mappings : List.Forall₂ (Stands c.servers) c.mappings credited
  nodup : (credited.map Prod.fst).Nodup
  answered : ∀ p ∈ credited, p ∈ answers
  closed : ∀ p ∈ credited, c.Closed p.1
  complete : Distinct random → ∀ p ∈ answers, p.1 ∈ credited.map Prod.fst

theorem Credit.later {answers : Set (ℕ × Endpoint)} {credited : List (ℕ × Endpoint)}
    (h : Credit random answers c credited) (hlater : Later random c c')
    (hmappings : c'.mappings = c.mappings) :
    Credit random answers c' credited := by
  refine ⟨?_, h.nodup, h.answered, fun p hp => hlater.closed p.1 (h.closed p hp), h.complete⟩
  rw [hmappings, hlater.servers]
  exact h.mappings

/-- What holds between two events. -/
structure Sound (random : ℕ → Option TransactionId) (servers : List StunServer)
    (answers : Set (ℕ × Endpoint)) (c : Client) :
    Prop where
  servers : c.servers = servers
  safe : Safe random c
  stage : Stage random c
  known : c.Known random
  credit : ∃ credited, Credit random answers c credited

theorem Sound.later {answers : Set (ℕ × Endpoint)} (h : Sound random servers answers c)
    (hmoves : Moves random now c c') (hstage : Stage random c')
    (hmappings : c'.mappings = c.mappings) :
    Sound random servers answers c' := by
  have hlater := hmoves.later h.safe
  obtain ⟨credited, hcredit⟩ := h.credit
  exact ⟨hlater.servers.trans h.servers, hlater.safe, hstage, hlater.known h.known, credited,
    hcredit.later hlater hmappings⟩

/-- What the handling of an event leaves, and that it is made of moves. -/
structure Handled (random : ℕ → Option TransactionId) (servers : List StunServer)
    (answers : Set (ℕ × Endpoint)) (now : Millis) (c c' : Client) :
    Prop where
  sound : Sound random servers answers c'
  moves : Moves random now c c'

theorem Sound.handled {answers : Set (ℕ × Endpoint)} (h : Sound random servers answers c)
    (hmoves : Moves random now c c') (hstage : Stage random c')
    (hmappings : c'.mappings = c.mappings) : Handled random servers answers now c c' :=
  ⟨h.later hmoves hstage hmappings, hmoves⟩

theorem Stage.done_iff (h : Stage random c) : c.done = false ↔ c.phase = .idle ∨
    c.phase = .running := by
  unfold Client.done
  cases h with
  | idle hphase | running hphase | succeeded hphase | failed hphase => rw [hphase]; decide

theorem Stage.quiet (h : Stage random c) (hdone : c.done = true) : c.Quiet := by
  unfold Client.done at hdone
  cases h with
  | idle hphase | running hphase =>
    rw [hphase] at hdone
    cases hdone
  | succeeded _ _ hquiet => exact hquiet
  | failed _ _ hquiet => exact hquiet

theorem Stage.running_of_active (h : Stage random c) {k : Fin stunConcurrency}
    (hk : (c.slots k).active = true) :
    c.phase = .running ∧ 2 ≤ c.servers.length ∧ c.mappings.length < 2 := by
  cases h with
  | running hphase hservers hfew => exact ⟨hphase, hservers, hfew⟩
  | idle _ _ hquiet | succeeded _ _ hquiet | failed _ _ hquiet =>
    rw [hquiet k] at hk
    cases hk

theorem Stage.same (h : Stage random c) (hphase : c'.phase = c.phase)
    (hnext : c'.nextServer = c.nextServer) (hservers : c'.servers = c.servers)
    (hmappings : c'.mappings = c.mappings)
    (hactive : ∀ k, (c'.slots k).active = (c.slots k).active) : Stage random c' := by
  have hquiet : c'.Quiet ↔ c.Quiet := forall_congr' fun k => by rw [hactive k]
  cases h with
  | idle h₁ h₂ h₃ h₄ =>
    exact .idle (hphase.trans h₁) (hnext.trans h₂) (hquiet.mpr h₃) (hmappings.trans h₄)
  | running h₁ h₂ h₃ h₄ h₅ =>
    refine .running (hphase.trans h₁) (hservers ▸ h₂) (hmappings ▸ h₃)
      (mt hquiet.mp h₄) fun hlt k => ?_
    rw [hnext, hservers] at hlt
    rw [hactive k]
    exact h₅ hlt k
  | succeeded h₁ h₂ h₃ => exact .succeeded (hphase.trans h₁) (hmappings ▸ h₂) (hquiet.mpr h₃)
  | failed h₁ h₂ h₃ h₄ =>
    refine .failed (hphase.trans h₁) (hmappings ▸ h₂) (hquiet.mpr h₃) ?_
    rw [hnext, hservers]
    exact h₄

/-! ## One event -/

theorem start_handled {answers : Set (ℕ × Endpoint)} (h : Sound random servers answers c)
    (now : Millis) :
    Handled random servers answers now c (c.start random now).1 := by
  unfold Client.start
  split_ifs with hphase hfew
  · exact ⟨h, .refl⟩
  · rw [not_not] at hphase
    have hfail : c.fail = ({ c with phase := .failed } : Client).releaseAll :=
      (releaseAll_phase c .failed).symm
    obtain ⟨hmoves, hquiet, slots, resolved, timers, hsame⟩ := releaseAll_released random now
      ({ c with phase := .failed } : Client)
    have hmove : Move random now c { c with phase := .failed } :=
      .phase c .failed (by rw [hphase]; decide) nofun
    have hmoves' := (Relation.ReflTransGen.single hmove).trans hmoves
    dsimp only
    rw [hfail]
    rw [hsame] at hmoves' hquiet ⊢
    cases h.stage with
    | idle _ _ _ hnone =>
      exact h.handled hmoves' (.failed rfl (by rw [hnone]; decide) hquiet (.inl hfew)) rfl
    | running hother | succeeded hother | failed hother =>
      rw [hphase] at hother
      cases hother
  · rw [not_not] at hphase
    have hrefilled :=
      refill_refilled now h.safe (h.stage.done_iff.mpr (.inl hphase)) (Nat.not_lt.mp hfew)
    exact h.handled hrefilled.moves hrefilled.stage hrefilled.mappings

theorem releaseRefill_handled {answers : Set (ℕ × Endpoint)} (hsame : c.servers = servers)
    (hsafe : Safe random c) (hknown : c.Known random) (hrunning : c.phase = .running)
    (hservers : 2 ≤ c.servers.length)
    {k : Fin stunConcurrency} (hk : (c.slots k).active = true) {credited : List (ℕ × Endpoint)}
    (hcredit : Credit random answers (c.release k) credited) (now : Millis) :
    Handled random servers answers now c ((c.release k).refill random now) := by
  have hmove : Move random now c (c.release k) := .release c k hk
  have hdone : (c.release k).done = false := by
    change c.done = false
    unfold Client.done
    rw [hrunning]
    decide
  have hrefilled := refill_refilled now (hsafe.release k) hdone hservers
  have hlater := hrefilled.moves.later (hsafe.release k)
  exact ⟨⟨hlater.servers.trans hsame, hlater.safe, hrefilled.stage,
    hlater.known (hmove.known hsafe hknown), credited,
    hcredit.later hlater hrefilled.mappings⟩, .head hmove hrefilled.moves⟩

theorem onTimer_handled {answers : Set (ℕ × Endpoint)} (h : Sound random servers answers c)
    (name : Bytes) (now : Millis) :
    Handled random servers answers now c (c.onTimer random name now) := by
  unfold Client.onTimer
  split_ifs with hdone
  · exact ⟨h, .refl⟩
  split
  case h_1 index htail =>
    split
    case h_1 => exact ⟨h, .refl⟩
    case h_2 k hfind =>
      obtain ⟨hk, rfl⟩ := findSlot_some hfind
      obtain ⟨hrunning, -⟩ := h.stage.running_of_active hk
      split_ifs with hall
      · exact ⟨h, .refl⟩
      · have hmove : Move random now c (c.resend k now) := by
          refine .resend c k ?_ hk (Nat.not_le.mp hall)
          rw [hrunning]
          decide
        obtain ⟨server, -, hasks⟩ := resend_asks h.safe hk now
        have hactive : ∀ k', ((c.resend k now).slots k').active = (c.slots k').active := by
          intro k'
          by_cases hne : k' = k
          · rw [hne, hasks.self, hk]
          · rw [hasks.other k' hne]
        obtain ⟨_, _, _, hsame⟩ := resend_same c k now
        rw [hsame] at hmove hactive ⊢
        exact h.handled (Relation.ReflTransGen.single hmove)
          (h.stage.same rfl rfl rfl rfl hactive) rfl
  case h_2 =>
    split
    case h_1 => exact ⟨h, .refl⟩
    case h_2 index htail =>
      split
      case h_1 => exact ⟨h, .refl⟩
      case h_2 k hfind =>
        obtain ⟨hk, -⟩ := findSlot_some hfind
        obtain ⟨hrunning, hservers, -⟩ := h.stage.running_of_active hk
        obtain ⟨credited, hcredit⟩ := h.credit
        have hmove : Move random now c (c.release k) := .release c k hk
        exact releaseRefill_handled h.servers h.safe h.known hrunning hservers hk
          (hcredit.later (Moves.later (.single hmove) h.safe) rfl) now

theorem means_cases {rawType : U16} {attrs : List Attribute} {r : StunResponse}
    (h : Means rawType attrs r) :
    (∃ mapped, r = ⟨.bindingSuccessResponse, some mapped, none⟩) ∨
    r.type = .bindingErrorResponse := by
  cases h with
  | success => exact .inl ⟨_, rfl⟩
  | error => exact .inr rfl

theorem gave_found (hsafe : Safe random c) (hknown : c.Known random) (hdistinct : Distinct random)
    {payload : List U8} {i : ℕ} {mapped : Endpoint} (h : c.Gave payload i mapped) :
    ∃ k id, peekTransactionId payload = .ok (some id) ∧ id ∉ c.resolved ∧
      c.findTransaction id = some k ∧
      (c.slots k).serverIndex = i ∧
      parseBindingResponse (payload.length + 1) payload (c.slots k).transaction =
        .ok ⟨.bindingSuccessResponse, some mapped, none⟩ := by
  obtain ⟨k, hk, rfl, attrs, hresponse, hmeans⟩ := h
  have hdraw := hsafe.holds k hk
  refine ⟨k, (c.slots k).transaction, isResponse_peek hresponse, fun hresolved => ?_, ?_, rfl,
    parse_means.mpr ⟨attrs, hresponse, hmeans⟩⟩
  · obtain ⟨j, hclosed, hj⟩ := hknown _ hresolved
    exact hclosed.2 k hk (hdistinct _ _ _ hdraw hj)
  · cases hfind : c.findTransaction (c.slots k).transaction with
    | none => exact absurd rfl (findTransaction_none hfind k hk)
    | some k' =>
      obtain ⟨hk', hsame⟩ := findTransaction_some hfind
      have hdraw' := hsafe.holds k' hk'
      rw [hsame] at hdraw'
      rw [hsafe.distinct k' k hk' hk (hdistinct _ _ _ hdraw' hdraw)]

theorem Credit.unheard {answers : Set (ℕ × Endpoint)} {credited : List (ℕ × Endpoint)}
    {payload : List U8} (h : Credit random answers c credited)
    (hnone : Distinct random → ∀ i mapped, ¬c.Gave payload i mapped) :
    Credit random (answers ∪ { p | c.Gave payload p.1 p.2 }) c credited := by
  refine ⟨h.mappings, h.nodup, fun p hp => .inl (h.answered p hp), h.closed,
    fun hdistinct p hp => ?_⟩
  rcases hp with hp | hp
  · exact h.complete hdistinct p hp
  · exact absurd hp (hnone hdistinct p.1 p.2)

theorem count_handled {answers : Set (ℕ × Endpoint)} (h : Sound random servers answers c) :
    Handled random servers answers now c c.countDrop :=
  h.handled (.single (.count c)) (h.stage.same rfl rfl rfl rfl fun _ => rfl) rfl

theorem Credit.heard {answers : Set (ℕ × Endpoint)} {credited : List (ℕ × Endpoint)}
    {payload : List U8} (h : Credit random answers c credited) (hsafe : Safe random c)
    {k : Fin stunConcurrency}
    (hk : (c.slots k).active = true) {server : StunServer}
    (hserver : c.servers[(c.slots k).serverIndex]? = some server) {mapped : Endpoint}
    (hmaps : Maps payload (c.slots k).transaction mapped)
    (honly : Distinct random → ∀ i m, c.Gave payload i m → i = (c.slots k).serverIndex) :
    Credit random (answers ∪ { p | c.Gave payload p.1 p.2 })
      (({ c with mappings := c.mappings ++ [⟨server.label, mapped⟩] } : Client).release k)
      (credited ++ [((c.slots k).serverIndex, mapped)]) := by
  have hclosed : ∀ p ∈ credited, (c.release k).Closed p.1 := by
    intro p hp
    have hmove : Move random (0 : Millis) c (c.release k) := .release c k hk
    exact hmove.closed hsafe (h.closed p hp)
  refine ⟨?_, ?_, fun p hp => ?_, fun p hp => ?_, fun hdistinct p hp => ?_⟩
  · have hlast : Stands c.servers ⟨server.label, mapped⟩ ((c.slots k).serverIndex, mapped) :=
      ⟨server, hserver, rfl⟩
    exact List.rel_append h.mappings (.cons hlast .nil)
  · rw [List.map_append, List.nodup_append]
    refine ⟨h.nodup, List.nodup_singleton _, fun i hi j hj heq => ?_⟩
    obtain ⟨p, hp, rfl⟩ := List.mem_map.mp hi
    obtain rfl := List.mem_singleton.mp hj
    exact (h.closed p hp).2 k hk heq.symm
  · rcases List.mem_append.mp hp with hp | hp
    · exact .inl (h.answered p hp)
    · obtain rfl := List.mem_singleton.mp hp
      exact .inr ⟨k, hk, rfl, hmaps⟩
  · rcases List.mem_append.mp hp with hp | hp
    · exact hclosed p hp
    · obtain rfl := List.mem_singleton.mp hp
      exact release_closed hsafe hk
  · rw [List.map_append, List.mem_append]
    rcases hp with hp | hp
    · exact .inl (h.complete hdistinct p hp)
    · exact .inr (List.mem_singleton.mpr (honly hdistinct p.1 p.2 hp))

theorem onDatagram_handled {answers : Set (ℕ × Endpoint)} (h : Sound random servers answers c)
    (payload : List U8) (now : Millis) :
    Handled random servers (answers ∪ { p | c.Gave payload p.1 p.2 }) now c
      (c.onDatagram random payload now) := by
  obtain ⟨credited, hcredit⟩ := h.credit
  have hunheard : (Distinct random → ∀ i mapped, ¬c.Gave payload i mapped) →
      Sound random servers (answers ∪ { p | c.Gave payload p.1 p.2 }) c :=
    fun hnone => ⟨h.servers, h.safe, h.stage, h.known, credited, hcredit.unheard hnone⟩
  have hfound := fun hdistinct i mapped (hgave : c.Gave payload i mapped) =>
    gave_found h.safe h.known hdistinct hgave
  unfold Client.onDatagram
  cases hpeek : peekTransactionId payload with
  | error e =>
    refine count_handled (hunheard fun hdistinct i mapped hgave => ?_)
    obtain ⟨k, id, hid, -⟩ := hfound hdistinct i mapped hgave
    rw [hpeek] at hid
    cases hid
  | ok peeked =>
    cases peeked with
    | none =>
      refine count_handled (hunheard fun hdistinct i mapped hgave => ?_)
      obtain ⟨k, id, hid, -⟩ := hfound hdistinct i mapped hgave
      rw [hpeek] at hid
      cases hid
    | some id =>
      dsimp only
      split_ifs with hresolved
      · refine ⟨hunheard fun hdistinct i mapped hgave => ?_, .refl⟩
        obtain ⟨k, id', hid, hfresh, -⟩ := hfound hdistinct i mapped hgave
        rw [hpeek] at hid
        cases hid
        exact hfresh hresolved
      cases hfind : c.findTransaction id with
      | none =>
        refine count_handled (hunheard fun hdistinct i mapped hgave => ?_)
        obtain ⟨k, id', hid, -, hk, -⟩ := hfound hdistinct i mapped hgave
        rw [hpeek] at hid
        cases hid
        rw [hfind] at hk
        cases hk
      | some k =>
        dsimp only
        cases hparse :
          parseBindingResponse (payload.length + 1) payload (c.slots k).transaction with
        | error e =>
          refine count_handled (hunheard fun hdistinct i mapped hgave => ?_)
          obtain ⟨k', id', hid, -, hk, -, hok⟩ := hfound hdistinct i mapped hgave
          rw [hpeek] at hid
          cases hid
          rw [hfind] at hk
          cases hk
          rw [hparse] at hok
          cases hok
        | ok r =>
          obtain ⟨hk, rfl⟩ := findTransaction_some hfind
          obtain ⟨hrunning, hservers, -⟩ := h.stage.running_of_active hk
          obtain ⟨server, hserver⟩ := h.safe.server hk
          obtain ⟨attrs, hresponse, hmeans⟩ := parse_means.mp hparse
          have honly : Distinct random → ∀ i m, c.Gave payload i m →
              i = (c.slots k).serverIndex ∧ r = ⟨.bindingSuccessResponse, some m, none⟩ := by
            intro hdistinct i m hgave
            obtain ⟨k', id', hid, -, hk', rfl, hok⟩ := hfound hdistinct i m hgave
            rw [hpeek] at hid
            cases hid
            rw [hfind] at hk'
            cases hk'
            rw [hparse] at hok
            exact ⟨rfl, Except.ok.inj hok⟩
          rcases means_cases hmeans with ⟨mapped, rfl⟩ | herror
          · have hmap : c.answered k ⟨.bindingSuccessResponse, some mapped, none⟩ =
                { c with mappings := c.mappings ++ [⟨server.label, mapped⟩] } := by
              unfold Client.answered
              rw [hserver]
            dsimp only
            rw [hmap]
            have hmove : Move random now c
              { c with mappings := c.mappings ++ [⟨server.label, mapped⟩] } := .mapped c _
            have hhandled :=
              releaseRefill_handled (hmove.servers_eq.trans h.servers) (hmove.safe h.safe)
              (hmove.known h.safe h.known) hrunning hservers hk
              (hcredit.heard h.safe hk hserver ⟨attrs, hresponse, hmeans⟩ fun hd i m hg =>
                (honly hd i m hg).1) now
            exact ⟨hhandled.sound, .head hmove hhandled.moves⟩
          · have hsame : c.answered k r = c := by
              unfold Client.answered
              rw [herror]
            dsimp only
            rw [hsame]
            have hmove : Move random now c (c.release k) := .release c k hk
            have hquiet := hcredit.unheard fun hdistinct i m hgave => by
              rw [(honly hdistinct i m hgave).2] at herror
              cases herror
            exact releaseRefill_handled h.servers h.safe h.known hrunning hservers hk
              (hquiet.later (Moves.later (.single hmove) h.safe) rfl) now

theorem expire_sound {answers : Set (ℕ × Endpoint)} (h : Sound random servers answers c)
    {timers : TimerSet Bytes} (hidle : Idle timers)
    (howned : ∀ t ∈ timers.timers, Owned t.name → t ∈ c.timers.timers) :
    Sound random servers answers { c with timers := timers } := by
  obtain ⟨credited, hcredit⟩ := h.credit
  have hsafe := h.safe
  refine ⟨h.servers,
    ⟨hidle, hsafe.drawn, hsafe.bound, hsafe.below, hsafe.holds, hsafe.sent, hsafe.distinct,
    fun t ht i hi => ?_, fun t ht ho => hsafe.once t (howned t ht ho) ho, hsafe.proper, hsafe.few,
      hsafe.order, hsafe.covered⟩,
    h.stage.same rfl rfl rfl rfl fun _ => rfl, h.known, credited, ?_⟩
  · exact hsafe.owned t (howned t ht ⟨i, hi⟩) i hi
  · exact ⟨hcredit.mappings, hcredit.nodup, hcredit.answered, hcredit.closed, hcredit.complete⟩

theorem event_handled {answers : Set (ℕ × Endpoint)}
    (h : Sound random servers answers c) {e : Event} (he : c.Possible e) :
    Sound random servers answers (c.entered e) ∧
      Handled random servers (answers ∪ c.heard e) e.now (c.entered e) (c.handle random e) := by
  have hsame : answers ∪ (∅ : Set (ℕ × Endpoint)) = answers := Set.union_empty answers
  cases e with
  | start now =>
    change _ ∧ Handled random servers (answers ∪ ∅) _ _ _
    rw [hsame]
    exact ⟨h, start_handled h now⟩
  | datagram payload now => exact ⟨h, onDatagram_handled h payload now⟩
  | expired t now =>
    change _ ∧ Handled random servers (answers ∪ ∅) _ _ _
    rw [hsame]
    have hone : c.timers.enter now t = c.timers.erase t.id :=
      enter_once now (h.safe.once t he.1 he.2)
    have hsound : Sound random servers answers { c with timers := c.timers.enter now t } := by
      rw [hone]
      exact expire_sound h (idle_erase h.safe.idle he.1) fun u hu _ => (mem_erase.mp hu).1
    exact ⟨hsound, onTimer_handled hsound t.name now⟩
  | others timers now =>
    change _ ∧ Handled random servers (answers ∪ ∅) _ _ _
    rw [hsame]
    have hsound := expire_sound h he.1 fun t ht ho => (he.2 t ho).mp ht
    exact ⟨hsound, hsound, .refl⟩

theorem made_sound (random : ℕ → Option TransactionId) (servers : List StunServer)
    {timers : TimerSet Bytes} (hidle : Idle timers) (hfree : ∀ t ∈ timers.timers, ¬Owned t.name) :
    Sound random servers ∅ (Client.made servers timers) := by
  have hnone : ∀ i, sentTo (Client.made servers timers).sends i = 0 := fun _ => List.countP_nil
  refine ⟨rfl, ⟨hidle, rfl, Nat.zero_le _, nofun, nofun, nofun, nofun, fun t ht i hi => ?_,
    fun t ht ho => ?_, nofun,
    fun i => ?_, ?_, nofun⟩, .idle rfl rfl (fun _ => rfl) rfl, nofun, [], .nil, List.nodup_nil,
      nofun, nofun, nofun⟩
  · exact absurd ⟨i, hi⟩ (hfree t ht)
  · exact absurd ho (hfree t ht)
  · rw [hnone]
    exact Nat.zero_le _
  · intro before r after heq
    exact absurd heq (by simp [Client.made])

theorem execution_sound {c₀ : Client} {answers₀ answers : Set (ℕ × Endpoint)}
    (h : Sound random servers answers₀ c₀) (hrun : Execution random c₀ answers c) :
    Sound random servers (answers₀ ∪ answers) c := by
  induction hrun with
  | refl =>
    rw [Set.union_empty]
    exact h
  | tail answers c e _ he ih =>
    rw [← Set.union_assoc]
    exact (event_handled ih he).2.sound

/-- A stage that is over hears nothing, sends nothing and changes nothing but the count of drops. -/
theorem event_done {answers : Set (ℕ × Endpoint)} (h : Sound random servers answers c)
    (hdone : c.done = true) {e : Event} (he : c.Possible e) :
    c.heard e = ∅ ∧
    ∃ timers drops, c.handle random e = { c with timers := timers, dropStunParse := drops } := by
  have hquiet := h.stage.quiet hdone
  have hactive : ∀ k, (c.slots k).active ≠ true := fun k => Bool.eq_false_iff.mp (hquiet k)
  cases e with
  | start now =>
    refine ⟨rfl, c.timers, c.dropStunParse, ?_⟩
    have hphase : c.phase ≠ .idle := by
      intro hidle
      unfold Client.done at hdone
      rw [hidle] at hdone
      cases hdone
    change (c.start random now).1 = c
    unfold Client.start
    rw [if_pos hphase]
  | datagram payload now =>
    refine ⟨Set.eq_empty_of_forall_notMem fun p ⟨k, hk, _⟩ => hactive k hk, ?_⟩
    change ∃ timers drops, c.onDatagram random payload now = _
    unfold Client.onDatagram
    split
    · exact ⟨_, _, rfl⟩
    · exact ⟨_, _, rfl⟩
    split_ifs
    · exact ⟨_, _, rfl⟩
    split
    · exact ⟨_, _, rfl⟩
    case h_2 k hfind => exact absurd (findTransaction_some hfind).1 (hactive k)
  | expired t now =>
    obtain ⟨i, hi⟩ := he.2
    obtain ⟨k, hk, -⟩ := h.safe.owned t he.1 i hi
    exact absurd hk (hactive k)
  | others timers now => exact ⟨rfl, timers, c.dropStunParse, rfl⟩

theorem execution_done {c₀ : Client} {answers₀ answers : Set (ℕ × Endpoint)}
    (h : Sound random servers answers₀ c₀) (hdone : c₀.done = true)
    (hrun : Execution random c₀ answers c) :
    answers = ∅ ∧ ∃ timers drops, c = { c₀ with timers := timers, dropStunParse := drops } := by
  induction hrun with
  | refl => exact ⟨rfl, c₀.timers, c₀.dropStunParse, rfl⟩
  | tail answers c e hrun he ih =>
    obtain ⟨hnone, timers, drops, hsame⟩ := ih
    have hdone' : c.done = true := by
      rw [hsame]
      exact hdone
    obtain ⟨hheard, timers', drops', hstep⟩ := event_done (execution_sound h hrun) hdone' he
    rw [hnone, hheard, Set.union_empty]
    refine ⟨rfl, timers', drops', ?_⟩
    rw [hstep, hsame]

theorem two_different {credited : List (ℕ × Endpoint)} (hnodup : (credited.map Prod.fst).Nodup) :
    2 ≤ credited.length ↔ ∃ p ∈ credited, ∃ q ∈ credited, p.1 ≠ q.1 := by
  match credited, hnodup with
  | [], _ => simp
  | [p], _ => simp
  | p :: q :: rest, hnodup =>
    have hne : p.1 ≠ q.1 := fun heq => (List.nodup_cons.mp hnodup).1 (heq ▸ List.mem_cons_self)
    exact ⟨fun _ => ⟨p, List.mem_cons_self, q, List.mem_cons_of_mem p List.mem_cons_self, hne⟩,
      fun _ => Nat.le_add_left 2 _⟩

theorem Stage.succeeded_iff (h : Stage random c) : c.phase = .succeeded ↔
      2 ≤ c.mappings.length := by
  cases h with
  | idle hphase _ _ hnone => rw [hphase, hnone]; decide
  | running hphase _ hfew =>
    rw [hphase]; exact ⟨nofun, fun hmany => absurd hmany (Nat.not_le.mpr hfew)⟩
  | succeeded hphase hmany => exact ⟨fun _ => hmany, fun _ => hphase⟩
  | failed hphase hfew =>
    rw [hphase]; exact ⟨nofun, fun hmany => absurd hmany (Nat.not_le.mpr hfew)⟩

theorem Stage.failed_iff (h : Stage random c) (hsafe : Safe random c) (hstarted : c.phase ≠ .idle) :
    c.phase = .failed ↔ c.phase ≠ .succeeded ∧
      (c.servers.length < 2 ∨ (∃ i < c.nextServer, random i = none) ∨
        c.Quiet ∧ c.nextServer = c.servers.length) := by
  cases h with
  | idle hphase => exact absurd hphase hstarted
  | running hphase hservers hfew hbusy =>
    rw [hphase]
    refine ⟨nofun, ?_⟩
    rintro ⟨-, hfew | ⟨i, hi, hnone⟩ | ⟨hquiet, -⟩⟩
    · exact absurd hservers (Nat.not_le.mpr hfew)
    · obtain ⟨q, hq, rfl⟩ := hsafe.covered (by rw [hphase]; decide) i hi
      obtain ⟨-, server, T, -, hdraw, -⟩ := hsafe.proper q hq
      rw [hnone] at hdraw
      cases hdraw
    · exact absurd hquiet hbusy
  | succeeded hphase =>
    rw [hphase]
    exact ⟨nofun, fun h => absurd rfl h.1⟩
  | failed hphase _ hquiet hend =>
    refine ⟨fun _ => ⟨by rw [hphase]; decide, ?_⟩, fun _ => hphase⟩
    exact hend.imp_right fun hend => hend.imp_right fun hlast => ⟨hquiet, hlast⟩

/-- Over every order of datagrams and timers the servers are asked in the order of the list, each in
one transaction with at most four requests; the stage ends when two servers answered or none is
left, and is silent from then on. -/
theorem stun_stage {timers : TimerSet Bytes} (hidle : Idle timers)
    (hfree : ∀ t ∈ timers.timers, ¬Owned t.name) {answers : Set (ℕ × Endpoint)}
    (hrun : Execution random (Client.made servers timers) answers c) :
    (InOrder c.sends ∧ (∀ i, sentTo c.sends i ≤ 4) ∧ ∀ r ∈ c.sends, Proper random servers r) ∧
    (∀ k k', (c.slots k).active = true → (c.slots k').active = true →
      (c.slots k).serverIndex = (c.slots k').serverIndex → k = k') ∧
    (∃ credited, List.Forall₂ (Stands servers) c.mappings credited ∧ (credited.map Prod.fst).Nodup ∧
      ∀ p ∈ credited, p ∈ answers) ∧
    (c.phase = .succeeded → ∃ p ∈ answers, ∃ q ∈ answers, p.1 ≠ q.1) ∧
    (Distinct random → (∃ p ∈ answers, ∃ q ∈ answers, p.1 ≠ q.1) → c.phase = .succeeded) ∧
    (c.phase ≠ .idle → (c.phase = .failed ↔ c.phase ≠ .succeeded ∧
      (servers.length < 2 ∨ (∃ i < c.nextServer, random i = none) ∨
        c.Quiet ∧ c.nextServer = servers.length))) ∧
    (c.done = true → c.Quiet ∧ (∀ t ∈ c.timers.timers, ¬Owned t.name) ∧
      ∀ answers' c', Execution random c answers' c' →
        answers' = ∅ ∧
        ∃ timers drops, c' = { c with timers := timers, dropStunParse := drops }) := by
  have h := execution_sound (made_sound random servers hidle hfree) hrun
  rw [Set.empty_union] at h
  obtain ⟨credited, hcredit⟩ := h.credit
  have hlength : c.mappings.length = credited.length := hcredit.mappings.length_eq
  have hstands := hcredit.mappings
  have hproper := h.safe.proper
  have hfailed := h.stage.failed_iff h.safe
  rw [h.servers] at hstands hproper hfailed
  refine ⟨⟨h.safe.order, h.safe.few, fun r hr => (hproper r hr).2⟩, h.safe.distinct,
    ⟨credited, hstands, hcredit.nodup, hcredit.answered⟩, fun hsucceeded =>
    ?_, fun hdistinct hboth => ?_, hfailed,
    fun hdone =>
      ⟨h.stage.quiet hdone, fun t ht ⟨i, hi⟩ => ?_, fun answers' c' => execution_done h hdone⟩⟩
  · have hmany := h.stage.succeeded_iff.mp hsucceeded
    rw [hlength] at hmany
    obtain ⟨p, hp, q, hq, hne⟩ := (two_different hcredit.nodup).mp hmany
    exact ⟨p, hcredit.answered p hp, q, hcredit.answered q hq, hne⟩
  · obtain ⟨p, hp, q, hq, hne⟩ := hboth
    obtain ⟨p', hp', hpp⟩ := List.mem_map.mp (hcredit.complete hdistinct p hp)
    obtain ⟨q', hq', hqq⟩ := List.mem_map.mp (hcredit.complete hdistinct q hq)
    apply h.stage.succeeded_iff.mpr
    rw [hlength]
    exact (two_different hcredit.nodup).mpr ⟨p', hp', q', hq', by rw [hpp, hqq]; exact hne⟩
  · obtain ⟨k, hk, -⟩ := h.safe.owned t ht i hi
    rw [h.stage.quiet hdone k] at hk
    cases hk

def sampleServers : List StunServer := [⟨ascii "a", ⟨1, 3478⟩⟩, ⟨ascii "b", ⟨2, 3478⟩⟩]

def sampleRandom (n : ℕ) : Option TransactionId := some (Vector.replicate 12 (BitVec.ofNat 8 n))

def sampleResponse (n : ℕ) : List U8 :=
  encodeResponse (Vector.replicate 12 (BitVec.ofNat 8 n)) [mappedAttribute 0 ⟨9, 50000⟩]

/-- Both servers answer, the second one first. -/
theorem stun_stage_answered :
    ∃ answers c, Execution sampleRandom (Client.made sampleServers empty) answers c ∧
      c.phase = .succeeded ∧
      InOrder c.sends ∧ ∃ p ∈ answers, ∃ q ∈ answers, p.1 ≠ q.1 := by
  have hmade : Execution sampleRandom (Client.made sampleServers empty) ∅
    (Client.made sampleServers empty) := .refl
  have hrun :=
    ((hmade.tail _ _ (.start 0) trivial).tail _ _
      (.datagram (sampleResponse 1) 20) trivial).tail _ _
    (.datagram (sampleResponse 0) 30) trivial
  have hphase : (Client.handle sampleRandom (Client.handle sampleRandom (Client.handle sampleRandom
      (Client.made sampleServers empty) (.start 0)) (.datagram (sampleResponse 1) 20))
      (.datagram (sampleResponse 0) 30)).phase = .succeeded := by
    decide +kernel
  have h := stun_stage idle_empty nofun hrun
  exact ⟨_, _, hrun, hphase, h.1.1, h.2.2.2.1 hphase⟩

end Sangtachi.StunClient
