import Sangtachi.Lobby.Stages

/-! # Progress of an attempt

Every event leaves the lobby with a trigger for what comes next. One lemma for each event, then the
run. -/
namespace Sangtachi.Lobby

open Sangtachi.BigEndian Sangtachi.Packet Sangtachi.Peer Sangtachi.Tunnel

variable {L L' : Lobby} {io : LobbyIo}

theorem Says.invariant (k : Says L L') (h : Invariant L) : Invariant L' := by
  obtain ⟨out, -, rfl⟩ := k
  exact h.same (sameStage_out L out)

theorem fail_early {code : FailCode} (hundef : L.undefined = false)
    (hearly : ¬(L.role = .host ∧ L.stage = .settled)) :
    Invariant (L.fail code) :=
  (fail_cases L code).invariant hundef fun hrole hstage => absurd ⟨hrole, hstage⟩ hearly

theorem tries_left : 0 < maxTries := by decide

/-! ## Commands -/

theorem Sound.issuing (h : Sound L) {role : LobbyRole} {op : Op} {body : Body} {out : Batch}
    (hlobby : L.stage = .lobby) (hpending : L.pending = none) (hrole : role ≠ .none)
    (hop : op = .createRoom ∨ op = .joinRoom) :
    Sound
      { L with
        role := role
        stage := .issuing
        requestOp := op
        requestBody := body
        tries := 0
        out := out } := by
  obtain ⟨_, _, htoken, hrequest, hreporting, hreport, hended, _, hpairs, harmed⟩ :=
    h.cleared hlobby
  constructor
  case cleared => exact nofun
  case orphaned => exact fun p hp => absurd (hpending.symm.trans hp) (by simp)
  case fits => exact fun p hp => absurd (hpending.symm.trans hp) (by simp)
  case role => exact fun _ => hrole
  case token => exact fun _ hfalse => absurd rfl hfalse
  case reports => exact fun htrue => absurd (hreporting.symm.trans htrue) (by decide)
  case reported => exact fun p hp => absurd (hpending.symm.trans hp) (by simp)
  case ended => exact fun htrue => absurd (hended.symm.trans htrue) (by decide)
  case polls => exact nofun
  case issues => exact fun _ => hop
  case registers => exact nofun
  case requestDue => exact fun _ => .inl rfl
  case reportDue => exact fun htrue => absurd (hreport.symm.trans htrue) (by decide)
  case timers =>
    intro n (hn : n ∈ L.armed)
    rw [harmed] at hn
    cases hn
  case distinct => exact h.distinct
  case keys => exact h.keys
  case early => exact fun _ => hpairs
  case player => exact nofun
  case defined => exact h.defined

theorem startAttempt_invariant (h : Invariant L) {role : LobbyRole} (room : Bytes)
    (hlobby : L.stage = .lobby) (hpending : L.pending = none) (hrole : role ≠ .none) :
    Invariant (L.startAttempt io role room) := by
  have hcleared := h.cleared hlobby
  unfold startAttempt
  dsimp only
  cases io.nonce with
  | none => exact fail_early h.defined (by rintro ⟨-, hstage⟩; cases hstage)
  | some nonce =>
    dsimp only
    generalize hrequest : (if role = .host then (Op.createRoom, createRoomBody nonce _)
      else (Op.joinRoom, joinRoomBody room nonce _)) = request
    obtain ⟨op, body⟩ := request
    have hop : op = .createRoom ∨ op = .joinRoom := by
      split_ifs at hrequest
      · exact .inl (Prod.mk.inj hrequest).1.symm
      · exact .inr (Prod.mk.inj hrequest).1.symm
    cases body with
    | none => exact fail_early h.defined (by rintro ⟨-, hstage⟩; cases hstage)
    | some body =>
      refine sendOrDeferRequest_invariant (h.toSound.issuing hlobby hpending hrole hop)
        (.inl rfl) ?_ tries_left ?_ ?_
      · intro (hretry : TimerName.retry ∈ L.armed)
        rw [hcleared.armed] at hretry
        cases hretry
      · exact fun p hp => absurd (hpending.symm.trans hp) (by simp)
      · exact fun htrue => absurd (hcleared.reporting.symm.trans htrue) (by decide)

theorem onStartCommand_invariant (h : Invariant L) (command : LobbyCommand)
    (hreject : ∀ reason kind, Invariant (L.reject reason kind)) :
    Invariant (L.onStartCommand io command) := by
  unfold onStartCommand
  by_cases hlobby : L.stage = .lobby
  · rw [if_neg (by simp [inLobby, hlobby])]
    by_cases hpending : L.pending = none
    · rw [if_neg (by simp [hpending])]
      split_ifs
      · exact hreject _ _
      · exact startAttempt_invariant h [] hlobby hpending (by decide)
      · exact hreject _ _
      · exact hreject _ _
      · exact startAttempt_invariant h command.argument hlobby hpending (by decide)
    · rw [if_pos (by simpa [Option.isSome_iff_ne_none] using hpending)]
      exact hreject _ _
  · rw [if_pos (by simp [inLobby, hlobby])]
    exact hreject _ _

theorem onCommand_invariant (h : Invariant L) (command : LobbyCommand) :
    Invariant (L.onCommand io command) := by
  have hreject : ∀ reason kind, Invariant (L.reject reason kind) := fun reason kind =>
    (((Says.refl L).push rfl).push rfl : Says L (L.reject reason kind)).invariant h
  unfold onCommand
  cases command.kind with
  | help =>
    dsimp only
    unfold onHelp
    split_ifs
    · exact hreject _ _
    · exact ((Says.refl L).guide _).invariant h
    · exact ((Says.refl L).guide _).invariant h
  | leave =>
    dsimp only
    unfold onLeave
    split_ifs
    · exact hreject _ _
    · exact hreject _ _
    · obtain ⟨out, -, heq⟩ := unfinished_eq L "ABORTED" "leave" true
      rw [heq]
      exact left_invariant h.defined out
  | name =>
    dsimp only
    unfold onName
    split_ifs
    · exact hreject _ _
    · exact hreject _ _
    · exact hreject _ _
    · exact hreject _ _
    · exact h.same
        ⟨rfl, rfl, rfl, rfl, rfl, rfl, rfl, rfl, rfl, rfl, rfl, rfl, rfl, rfl, fun _ => rfl⟩
  | host =>
    apply onStartCommand_invariant h
    exact hreject
  | join =>
    apply onStartCommand_invariant h
    exact hreject

/-! ## Replies of the step under way -/

/-- A reply is taken: what is due can be done now, or nothing is. -/
def Handled (L : Lobby) : Prop := Invariant L ∨ Idle L

theorem Handled.runDue (h : Handled L) : Invariant L.runDue := by
  rcases h with h | h
  · rw [runDue_settled h]
    exact h
  · exact runDue_invariant h

/-- The reply to the request of a step has come. -/
structure Answered (L : Lobby) : Prop extends Sound L where
  free : L.pending = none
  undue : L.requestDue = false
  unarmed : .retry ∉ L.armed
  cycle : L.reporting = true → .hostReport ∈ L.armed ∨ L.reportDue = true

theorem Idle.same (h : Idle L) (k : SameStage L L') : Idle L' where
  toSound := h.toSound.same k
  free := k.pending.trans h.free
  resting := by
    rw [k.stage, k.tries, k.requestDue, k.armed]
    exact h.resting
  polling := by
    rw [k.stage, k.armed]
    exact h.polling
  cycle := by
    rw [k.reporting, k.armed, k.reportDue]
    exact h.cycle
  alive := by
    unfold activePairs
    rw [k.roomEnded, k.pairs]
    exact h.alive

theorem Answered.same (h : Answered L) (k : SameStage L L') : Answered L' where
  toSound := h.toSound.same k
  free := k.pending.trans h.free
  undue := k.requestDue.trans h.undue
  unarmed := by
    rw [k.armed]
    exact h.unarmed
  cycle := by
    rw [k.reporting, k.armed, k.reportDue]
    exact h.cycle

theorem Sound.open (h : Sound L) (hstage : L.stage ≠ .settled) : L.roomEnded = true →
    0 < L.activePairs :=
  fun hended => absurd (h.ended hended).1 hstage

theorem Answered.retryOrFail (h : Answered L)
    (hstage : L.stage = .issuing ∨ L.stage = .registering) :
    Handled L.retryOrFail := by
  have hunsettled : L.stage ≠ .settled := by
    rcases hstage with hstage | hstage <;> rw [hstage] <;> decide
  have hpolling : L.stage ≠ .polling := by
    rcases hstage with hstage | hstage <;> rw [hstage] <;> decide
  unfold Lobby.retryOrFail
  by_cases htries : L.tries < maxTries
  · rw [if_pos htries]
    have hsound : Sound (L.arm .retry retryIntervalMs) := h.toSound.arm retryIntervalMs hstage
    obtain ⟨out, -, harm⟩ := arm_eq L .retry retryIntervalMs
    rw [harm] at hsound ⊢
    have hretry : TimerName.retry ∈ withTimer L.armed .retry := mem_withTimer.mpr (.inr rfl)
    right
    constructor
    case toSound => exact hsound
    case free => exact h.free
    case resting =>
      refine fun _ => ⟨htries, ?_⟩
      constructor
      · exact fun hdue => absurd (h.undue.symm.trans hdue) (by decide)
      · exact fun hnot => absurd hretry hnot
    case polling => exact fun hfalse => absurd hfalse hpolling
    case cycle =>
      intro hreporting
      rcases h.cycle hreporting with harmed | hdue
      · exact .inl (mem_withTimer.mpr (.inl harmed))
      · exact .inr hdue
    case alive => exact h.open hunsettled
  · rw [if_neg htries]
    exact .inl (fail_early h.defined fun hsettled => hunsettled hsettled.2)

theorem Sound.onlyRetry (h : Sound L) (hstage : L.stage = .issuing) :
    ∀ n ∈ L.armed, n = .retry := by
  intro n hn
  have hreporting : ¬L.reporting = true := fun htrue => (h.reportStages htrue).2.1 hstage
  have hbelongs := h.timers n hn
  unfold Belongs at hbelongs
  rw [hstage, h.early (by rw [hstage]; decide)] at hbelongs
  cases n with
  | retry => rfl
  | hostReport => exact absurd hbelongs hreporting
  | _ => simp at hbelongs

theorem Answered.noTimers (h : Answered L) (hstage : L.stage = .issuing) : L.armed = [] := by
  apply List.eq_nil_iff_forall_not_mem.mpr
  intro n hn
  exact h.unarmed (h.onlyRetry hstage n hn ▸ hn)

theorem Answered.takeIssued (h : Answered L) (hstage : L.stage = .issuing) (issued : Issued) :
    Idle (L.takeIssued io issued) := by
  have hreporting : ¬L.reporting = true := fun htrue => (h.reportStages htrue).2.1 hstage
  have hended : ¬L.roomEnded = true :=
    fun htrue => absurd ((h.ended htrue).1.symm.trans hstage) (by decide)
  have hpairs : L.pairs = [] := h.early (by rw [hstage]; decide)
  have harmed := h.noTimers hstage
  obtain ⟨out, -, heq⟩ := takeIssued_eq L io issued
  rw [heq]
  constructor
  case toSound =>
    constructor
    case cleared => exact nofun
    case orphaned => exact fun p hp => absurd (h.free.symm.trans hp) (by simp)
    case fits => exact fun p hp => absurd (h.free.symm.trans hp) (by simp)
    case role => exact fun _ => h.role (by rw [hstage]; decide)
    case token => exact fun _ _ => rfl
    case reports =>
      intro htrue
      by_cases hrole : L.role = .host
      · exact ⟨hrole, by simpa using hended, .inl rfl⟩
      · exact absurd ((if_neg hrole).symm.trans htrue) hreporting
    case reported => exact fun p hp => absurd (h.free.symm.trans hp) (by simp)
    case ended => exact fun htrue => absurd htrue hended
    case polls => exact nofun
    case issues => exact nofun
    case registers => exact nofun
    case requestDue => exact fun htrue => absurd (h.undue.symm.trans htrue) (by decide)
    case reportDue => exact fun htrue => absurd (h.reportDue htrue) hreporting
    case timers =>
      intro n hn
      dsimp only at hn
      by_cases hrole : L.role = .host
      · rw [if_pos hrole, harmed] at hn
        obtain rfl := List.mem_singleton.mp hn
        exact if_pos hrole
      · rw [if_neg hrole, harmed] at hn
        cases hn
    case distinct =>
      dsimp only
      split_ifs
      · exact nodup_withTimer h.distinct _
      · exact h.distinct
    case keys => exact h.keys
    case early => exact fun _ => hpairs
    case player => exact nofun
    case defined => exact h.defined
  case free => exact h.free
  case resting => exact fun hfalse => by rcases hfalse with hfalse | hfalse <;> cases hfalse
  case polling => exact nofun
  case cycle =>
    intro htrue
    left
    by_cases hrole : L.role = .host
    · dsimp only
      rw [if_pos hrole]
      exact mem_withTimer.mpr (.inr rfl)
    · exact absurd ((if_neg hrole).symm.trans htrue) hreporting
  case alive => exact fun htrue => absurd htrue hended

theorem Answered.onIssued (h : Answered L) (hstage : L.stage = .issuing) (reply : Reply Issued) :
    Handled (L.onIssued io reply) := by
  have hfail : Handled (L.fail .controlPlaneExchangeFailed) :=
    .inl (fail_early h.defined fun hsettled => absurd (hstage.symm.trans hsettled.2) (by decide))
  unfold Lobby.onIssued
  split
  · exact h.retryOrFail (.inl hstage)
  · split
    · exact .inr (h.takeIssued hstage _)
    · exact hfail

theorem Answered.onlyReport (h : Answered L) (hstage : L.stage = .registering) :
    ∀ n ∈ L.armed, n = .hostReport ∧ L.reporting = true := by
  intro n hn
  have hbelongs := h.timers n hn
  unfold Belongs at hbelongs
  rw [hstage, h.early (by rw [hstage]; decide)] at hbelongs
  cases n with
  | retry => exact absurd hn h.unarmed
  | hostReport => exact ⟨rfl, hbelongs⟩
  | _ => simp at hbelongs

theorem Answered.toSettled (h : Answered L) (out : Batch) (hstage : L.stage = .registering)
    (hrole : L.role = .host) :
    Idle { L with requestBody := .empty, tries := 0, stage := .settled, out := out } := by
  have hended : ¬L.roomEnded = true :=
    fun htrue => absurd ((h.ended htrue).1.symm.trans hstage) (by decide)
  constructor
  case toSound =>
    constructor
    case cleared => exact nofun
    case orphaned => exact fun p hp => absurd (h.free.symm.trans hp) (by simp)
    case fits => exact fun p hp => absurd (h.free.symm.trans hp) (by simp)
    case role => exact fun _ hnone => absurd (hrole.symm.trans hnone) (by decide)
    case token => exact fun _ _ => h.token (by rw [hstage]; decide) (by rw [hstage]; decide)
    case reports => exact fun htrue => ⟨hrole, (h.reports htrue).2.1, .inr (.inr rfl)⟩
    case reported => exact fun p hp => absurd (h.free.symm.trans hp) (by simp)
    case ended => exact fun htrue => absurd htrue hended
    case polls => exact nofun
    case issues => exact nofun
    case registers => exact nofun
    case requestDue => exact fun htrue => absurd (h.undue.symm.trans htrue) (by decide)
    case reportDue => exact h.reportDue
    case timers =>
      intro n hn
      obtain ⟨rfl, hreporting⟩ := h.onlyReport hstage n hn
      exact hreporting
    case distinct => exact h.distinct
    case keys => exact h.keys
    case early => exact fun hfalse => absurd rfl hfalse
    case player => exact fun hplayer => absurd (hrole.symm.trans hplayer) (by decide)
    case defined => exact h.defined
  case free => exact h.free
  case resting => exact fun hfalse => by rcases hfalse with hfalse | hfalse <;> cases hfalse
  case polling => exact nofun
  case cycle => exact h.cycle
  case alive => exact fun htrue => absurd htrue hended

theorem Answered.toPolling (h : Answered L) (out : Batch) (hstage : L.stage = .registering)
    (hrole : L.role = .player) :
    Idle { L with
      requestBody := .empty
      tries := 0
      stage := .polling
      armed := withTimer (withTimer L.armed .poll) .deadline
      out := out } := by
  have hended : ¬L.roomEnded = true :=
    fun htrue => absurd ((h.ended htrue).1.symm.trans hstage) (by decide)
  have hreporting : ¬L.reporting = true :=
    fun htrue => absurd ((h.reports htrue).1.symm.trans hrole) (by decide)
  constructor
  case toSound =>
    constructor
    case cleared => exact nofun
    case orphaned => exact fun p hp => absurd (h.free.symm.trans hp) (by simp)
    case fits => exact fun p hp => absurd (h.free.symm.trans hp) (by simp)
    case role => exact fun _ hnone => absurd (hrole.symm.trans hnone) (by decide)
    case token => exact fun _ _ => h.token (by rw [hstage]; decide) (by rw [hstage]; decide)
    case reports => exact fun htrue => absurd htrue hreporting
    case reported => exact fun p hp => absurd (h.free.symm.trans hp) (by simp)
    case ended => exact fun htrue => absurd htrue hended
    case polls => exact fun _ => hrole
    case issues => exact nofun
    case registers => exact nofun
    case requestDue => exact fun htrue => absurd (h.undue.symm.trans htrue) (by decide)
    case reportDue => exact h.reportDue
    case timers =>
      intro n hn
      rcases mem_withTimer.mp hn with hn | rfl
      · rcases mem_withTimer.mp hn with hn | rfl
        · exact absurd (h.onlyReport hstage n hn).2 hreporting
        · rfl
      · rfl
    case distinct => exact nodup_withTimer (nodup_withTimer h.distinct _) _
    case keys => exact h.keys
    case early => exact fun _ => h.early (by rw [hstage]; decide)
    case player => exact nofun
    case defined => exact h.defined
  case free => exact h.free
  case resting => exact fun hfalse => by rcases hfalse with hfalse | hfalse <;> cases hfalse
  case polling =>
    exact fun _ =>
      ⟨mem_withTimer.mpr (.inr rfl), mem_withTimer.mpr (.inl (mem_withTimer.mpr (.inr rfl)))⟩
  case cycle => exact fun htrue => absurd htrue hreporting
  case alive => exact fun htrue => absurd htrue hended

theorem Sound.isPlayer (h : Sound L) (hlobby : L.stage ≠ .lobby) (hrole : L.role ≠ .host) :
    L.role = .player := by
  have hsome := h.role hlobby
  cases hcase : L.role with
  | none => exact absurd hcase hsome
  | host => exact absurd hcase hrole
  | player => rfl

theorem Answered.onRegistered (h : Answered L) (hstage : L.stage = .registering)
    (reply : Reply Registered) :
    Handled (L.onRegistered reply) := by
  unfold Lobby.onRegistered
  by_cases htransient : reply.outcome = .transient
  · rw [if_pos htransient]
    exact h.retryOrFail (.inr hstage)
  · rw [if_neg htransient]
    split
    case h_1 registered _ _ =>
      obtain ⟨out, -, heq⟩ := takeRegistered_eq L registered
      rw [heq]
      by_cases hrole : L.role = .host
      · rw [if_pos hrole, if_pos hrole]
        exact .inr (h.toSettled out hstage hrole)
      · rw [if_neg hrole, if_neg hrole]
        exact .inr (h.toPolling out hstage (h.isPlayer (by rw [hstage]; decide) hrole))
    case h_2 =>
      exact .inl
        (fail_early h.defined fun hsettled => absurd (hstage.symm.trans hsettled.2) (by decide))

/-! ## Replies of the polling -/

/-- A reply to `get_peers` has come. -/
structure Polled (L : Lobby) : Prop extends Sound L where
  free : L.pending = none
  stage : L.stage = .polling
  deadline : .deadline ∈ L.armed

theorem Polled.quiet (h : Polled L) : ¬L.reporting = true ∧ ¬L.roomEnded = true ∧
    L.requestDue = false ∧ L.pairs = [] := by
  refine ⟨?_, ?_, ?_, h.early (by rw [h.stage]; decide)⟩
  · exact fun htrue => (h.reportStages htrue).2.2 h.stage
  · exact fun htrue => absurd ((h.ended htrue).1.symm.trans h.stage) (by decide)
  · by_contra htrue
    have hdue := h.requestDue (by simpa using htrue)
    rw [h.stage] at hdue
    simp at hdue

theorem Polled.again (h : Polled L) (hostPeer : Option U32) (out : Batch) :
    Idle { L with hostPeer := hostPeer, armed := withTimer L.armed .poll, out := out } := by
  obtain ⟨hreporting, hended, hrequest, hpairs⟩ := h.quiet
  have hsound : Sound { L with hostPeer := hostPeer } :=
    h.toSound.same
      ⟨rfl, rfl, rfl, rfl, rfl, rfl, rfl, rfl, rfl, rfl, rfl, rfl, rfl, rfl, fun _ => rfl⟩
  constructor
  case toSound =>
    refine hsound.arms (nodup_withTimer h.distinct _) ?_
    intro n hn
    rcases mem_withTimer.mp hn with hold | rfl
    · exact h.timers n hold
    · exact h.stage
  case free => exact h.free
  case resting =>
    exact fun hstage => by
      rcases hstage with hstage | hstage <;> exact absurd (h.stage.symm.trans hstage) (by decide)
  case polling => exact fun _ => ⟨mem_withTimer.mpr (.inl h.deadline), mem_withTimer.mpr (.inr rfl)⟩
  case cycle => exact fun htrue => absurd htrue hreporting
  case alive => exact fun htrue => absurd htrue hended

theorem Polled.noTimers (h : Polled L) :
    (L.armed.filter (· ≠ .deadline)).filter (· ≠ .poll) = [] := by
  obtain ⟨hreporting, -, -, hpairs⟩ := h.quiet
  apply List.filter_eq_nil_iff.mpr
  intro n hn
  obtain ⟨hold, hother⟩ := List.mem_filter.mp hn
  have hbelongs := h.timers n hold
  unfold Belongs at hbelongs
  rw [h.stage, hpairs] at hbelongs
  cases n with
  | poll => simp
  | deadline => simp at hother
  | hostReport => exact absurd hbelongs hreporting
  | _ => simp at hbelongs

theorem Polled.opened (h : Polled L) (peer : PeerView) (out : Batch) : Idle (openPair { L with
    hostPeer := some peer.peerId
    stage := .settled
    armed := (L.armed.filter (· ≠ .deadline)).filter (· ≠ .poll)
    out := out } peer L.stunStarted) := by
  obtain ⟨hreporting, hended, hrequest, hpairs⟩ := h.quiet
  have hplayer := h.polls h.stage
  obtain ⟨out', -, -, heq⟩ := openPair_eq { L with
    hostPeer := some peer.peerId
    stage := .settled
    armed := (L.armed.filter (· ≠ .deadline)).filter (· ≠ .poll)
    out := out } peer L.stunStarted
  rw [heq, h.noTimers]
  have hpair : L.pairs.filter (·.peerId ≠ peer.peerId) ++
    [{ peerId := peer.peerId, name := peer.name }] =
      [{ peerId := peer.peerId, name := peer.name }] := by
    rw [hpairs]
    rfl
  constructor
  case toSound =>
    constructor
    case cleared => exact nofun
    case orphaned => exact fun p hp => absurd (h.free.symm.trans hp) (by simp)
    case fits => exact fun p hp => absurd (h.free.symm.trans hp) (by simp)
    case role => exact fun _ hnone => absurd (hplayer.symm.trans hnone) (by decide)
    case token => exact fun _ _ => h.token (by rw [h.stage]; decide) (by rw [h.stage]; decide)
    case reports => exact fun htrue => absurd htrue hreporting
    case reported => exact fun p hp => absurd (h.free.symm.trans hp) (by simp)
    case ended => exact fun htrue => absurd htrue hended
    case polls => exact nofun
    case issues => exact nofun
    case registers => exact nofun
    case requestDue => exact fun htrue => absurd (hrequest.symm.trans htrue) (by decide)
    case reportDue => exact h.reportDue
    case timers =>
      intro n hn
      unfold punchArmed at hn
      dsimp only at hn
      split_ifs at hn
      · cases hn
      · rcases mem_withTimer.mp hn with hn | rfl
        · cases hn
        · exact ⟨_, List.mem_append_right _ (List.mem_singleton.mpr rfl), rfl, rfl⟩
    case distinct =>
      unfold punchArmed
      split_ifs
      · exact List.nodup_nil
      · exact nodup_withTimer List.nodup_nil _
    case keys =>
      dsimp only
      rw [hpair]
      exact List.nodup_singleton _
    case early => exact fun hfalse => absurd rfl hfalse
    case player => exact fun _ _ => ⟨_, hpair, rfl⟩
    case defined => exact h.defined
  case free => exact h.free
  case resting => exact fun hfalse => by rcases hfalse with hfalse | hfalse <;> cases hfalse
  case polling => exact nofun
  case cycle => exact fun htrue => absurd htrue hreporting
  case alive => exact fun htrue => absurd htrue hended

theorem Polled.onPeers (h : Polled L) (reply : Reply Peers) : Handled (L.onPeers reply) := by
  have hagain : Handled (L.arm .poll getPeersPollMs) := by
    obtain ⟨out, -, heq⟩ := arm_eq L .poll getPeersPollMs
    rw [heq]
    exact .inr (h.again L.hostPeer out)
  unfold Lobby.onPeers
  by_cases htransient : reply.outcome = .transient
  · rw [if_pos htransient]
    exact hagain
  · rw [if_neg htransient]
    split
    case h_1 ready peer rest _ _ =>
      have htaken := takeHostPeer_cases L peer
      generalize L.takeHostPeer peer = M at htaken
      cases htaken with
      | waits out _ _ => exact .inr (h.again _ out)
      | opened out _ _ => exact .inr (h.opened peer out)
    case h_2 =>
      exact .inl
        (fail_early h.defined fun hsettled => absurd (h.stage.symm.trans hsettled.2) (by decide))

/-! ## Replies of the reports -/

structure Reporting (L : Lobby) : Prop extends Idle L where
  reporting : L.reporting = true

theorem Reporting.host (h : Reporting L) : L.role = .host ∧ L.roomEnded = false :=
  ⟨(h.reports h.reporting).1, (h.reports h.reporting).2.1⟩

theorem Reporting.noted (h : Reporting L) (peers : List PeerView) (carried : List U32)
    (firstSeen : List (U32 × Millis)) (announced : List U32) (out : Batch) :
    Reporting (L.noted peers carried firstSeen announced out) := by
  obtain ⟨hrole, hended⟩ := h.host
  obtain ⟨hlobby, hissuing, hpolling⟩ := h.reportStages h.reporting
  constructor
  case reporting => exact h.reporting
  case toIdle =>
    constructor
    case toSound =>
      constructor
      case cleared => exact fun hstage => absurd hstage hlobby
      case orphaned => exact h.orphaned
      case fits => exact h.fits
      case role => exact h.role
      case token => exact h.token
      case reports => exact h.reports
      case reported => exact h.reported
      case ended => exact h.ended
      case polls => exact h.polls
      case issues => exact h.issues
      case registers => exact h.registers
      case requestDue => exact h.requestDue
      case reportDue => exact h.reportDue
      case timers =>
        intro n hn
        have hbelongs := h.timers n hn
        cases n with
        | punch id =>
          obtain ⟨p, hp, hid, hactive⟩ := hbelongs
          exact ⟨p, List.mem_filter.mpr ⟨hp, by simp [hactive]⟩, hid, hactive⟩
        | _ => exact hbelongs
      case distinct => exact h.distinct
      case keys => exact h.keys.sublist (List.filter_sublist.map _)
      case early =>
        intro hstage
        have hpairs := h.early hstage
        unfold Lobby.noted
        dsimp only
        rw [hpairs]
        rfl
      case player => exact fun hplayer => absurd (hrole.symm.trans hplayer) (by decide)
      case defined => exact h.defined
    case free => exact h.free
    case resting => exact h.resting
    case polling => exact h.polling
    case cycle => exact h.cycle
    case alive => exact fun htrue => absurd (hended.symm.trans htrue) (by decide)

theorem Reporting.openListed (h : Reporting L) (hstage : L.stage = .settled) (peer : PeerView) :
    Reporting (L.openListed peer) ∧ (L.openListed peer).stage = .settled := by
  obtain ⟨hrole, hended⟩ := h.host
  unfold Lobby.openListed
  by_cases hopen : isPunchReady peer = true ∧ L.findPair peer.peerId = none
  · rw [if_pos hopen]
    obtain ⟨out, -, -, heq⟩ := openPair_eq L peer (L.firstSeenAt peer.peerId)
    have hnew : ∀ p ∈ L.pairs, p.peerId ≠ peer.peerId := by
      intro p hp
      simpa using List.find?_eq_none.mp hopen.2 p hp
    have hkept : L.pairs.filter (·.peerId ≠ peer.peerId) = L.pairs := by
      apply List.filter_eq_self.mpr
      intro p hp
      simpa using hnew p hp
    rw [heq, hkept]
    refine ⟨?_, hstage⟩
    constructor
    case reporting => exact h.reporting
    case toIdle =>
      constructor
      case toSound =>
        constructor
        case cleared => exact fun hlobby => absurd (hstage.symm.trans hlobby) (by decide)
        case orphaned => exact h.orphaned
        case fits => exact h.fits
        case role => exact h.role
        case token => exact h.token
        case reports => exact h.reports
        case reported => exact h.reported
        case ended => exact h.ended
        case polls => exact h.polls
        case issues => exact h.issues
        case registers => exact h.registers
        case requestDue => exact h.requestDue
        case reportDue => exact h.reportDue
        case timers =>
          have hold : ∀ n ∈ L.armed, Belongs { L with
              pairs := L.pairs ++ [{ peerId := peer.peerId, name := peer.name }]
              armed := punchArmed L peer
              out := out } n := by
            intro n hn
            have hbelongs := h.timers n hn
            cases n with
            | punch id =>
              obtain ⟨p, hp, hid, hactive⟩ := hbelongs
              exact ⟨p, List.mem_append_left _ hp, hid, hactive⟩
            | _ => exact hbelongs
          intro n (hn : n ∈ punchArmed L peer)
          unfold punchArmed at hn
          split_ifs at hn
          · exact hold n hn
          · rcases mem_withTimer.mp hn with hn | rfl
            · exact hold n hn
            · exact ⟨_, List.mem_append_right _ (List.mem_singleton.mpr rfl), rfl, rfl⟩
        case distinct =>
          unfold punchArmed
          split_ifs
          · exact h.distinct
          · exact nodup_withTimer h.distinct _
        case keys =>
          dsimp only
          rw [List.map_append]
          refine h.keys.append (List.nodup_singleton _) ?_
          intro id hid hother
          obtain ⟨p, hp, rfl⟩ := List.mem_map.mp hid
          exact hnew p hp (List.mem_singleton.mp hother)
        case early => exact fun hfalse => absurd hstage hfalse
        case player => exact fun hplayer => absurd (hrole.symm.trans hplayer) (by decide)
        case defined => exact h.defined
      case free => exact h.free
      case resting =>
        exact fun hstep => by
          rcases hstep with hstep | hstep <;> exact absurd (hstage.symm.trans hstep) (by decide)
      case polling => exact fun hpolling => absurd (hstage.symm.trans hpolling) (by decide)
      case cycle =>
        intro htrue
        rcases h.cycle htrue with harmed | hdue
        · left
          unfold punchArmed
          split_ifs
          · exact harmed
          · exact mem_withTimer.mpr (.inl harmed)
        · exact .inr hdue
      case alive => exact fun htrue => absurd (hended.symm.trans htrue) (by decide)
  · rw [if_neg hopen]
    exact ⟨h, hstage⟩

theorem Reporting.takeReport (h : Reporting L) (peers : List PeerView) (carried : List U32) :
    Reporting (L.takeReport io peers carried) := by
  have hfold : ∀ (rest : List PeerView) {M : Lobby}, Reporting M → M.stage = .settled →
      Reporting (rest.foldl Lobby.openListed M) := by
    intro rest
    induction rest with
    | nil => exact fun hM _ => hM
    | cons peer rest ih =>
      intro M hM hstage
      obtain ⟨hopened, hsettled⟩ := hM.openListed hstage peer
      exact ih hopened hsettled
  obtain ⟨firstSeen, announced, out, -, heq⟩ := takeReport_eq L io peers carried
  have hnoted := h.noted peers carried firstSeen announced out
  rw [heq]
  split_ifs with hsettled
  · exact hfold peers hnoted hsettled
  · exact hnoted

theorem Reporting.onHostReport (h : Reporting L) (reply : Reply HostReport) (pending : Pending) :
    Handled (L.onHostReport io reply pending) := by
  obtain ⟨hrole, hended⟩ := h.host
  unfold Lobby.onHostReport
  by_cases hstop : hostReportAction reply.outcome reply.failure = .stop
  · rw [if_pos hstop]
    exact .inl ((fail_cases L _).invariant h.defined fun _ _ => ⟨h.toSound, h.free, hended⟩)
  · rw [if_neg hstop]
    split
    · exact .inr (h.takeReport _ _).toIdle
    · exact .inr h.toIdle

/-! ## Any reply -/

theorem Invariant.orphan (h : Invariant L) (hlobby : L.stage = .lobby) :
    Idle { L with pending := none } where
  toSound := h.toSound.unpend
  free := rfl
  resting hstage := by
    rcases hstage with hstage | hstage <;> exact absurd (hlobby.symm.trans hstage) (by decide)
  polling hstage := absurd (hlobby.symm.trans hstage) (by decide)
  cycle := h.cycle
  alive := h.alive

theorem Invariant.answered (h : Invariant L) {p : Pending} (hp : L.pending = some p)
    (hop : p.op = L.requestOp) (hstage : L.stage = .issuing ∨ L.stage = .registering) :
    Answered { L with pending := none } := by
  have hreport : L.requestOp ≠ .hostReport := by
    rcases hstage with hstage | hstage
    · rcases h.issues hstage with hop | hop <;> rw [hop] <;> decide
    · rw [h.registers hstage]
      decide
  cases h.asking hstage with
  | sent q _ _ hdue hretry _ => exact ⟨h.toSound.unpend, rfl, hdue, hretry, h.cycle⟩
  | resting hbehind _ _ _ => exact absurd (hop.symm.trans (hbehind p hp)) hreport
  | deferred q hq hbehind _ _ _ =>
    obtain rfl := Option.some.inj (hp.symm.trans hq)
    exact absurd (hop.symm.trans hbehind) hreport

theorem Invariant.reporting_answered (h : Invariant L) {p : Pending} (hp : L.pending = some p)
    (hop : p.op = .hostReport) (hlobby : L.stage ≠ .lobby) :
    Reporting { L with pending := none } := by
  have hreporting := h.reported p hp hlobby hop
  obtain ⟨-, hissuing, hpolling⟩ := h.reportStages hreporting
  constructor
  case reporting => exact hreporting
  case toIdle =>
    constructor
    case toSound => exact h.toSound.unpend
    case free => rfl
    case resting =>
      intro hstage
      cases h.asking hstage with
      | sent q hq hown _ _ _ =>
        obtain rfl := Option.some.inj (hp.symm.trans hq)
        rcases hstage with hstage | hstage
        · exact absurd hstage hissuing
        · rw [hop, h.registers hstage] at hown
          exact absurd hown (by decide)
      | resting _ hdue hretry htries =>
        exact ⟨htries, fun htrue => absurd (hdue.symm.trans htrue) (by decide),
          fun hnot => absurd hretry hnot⟩
      | deferred q _ _ hdue hretry htries => exact ⟨htries, fun _ => hretry, fun _ => hdue⟩
    case polling => exact fun hstage => absurd hstage hpolling
    case cycle => exact h.cycle
    case alive => exact h.alive

theorem Sound.stageOf (h : Sound L) {p : Pending} (hp : L.pending = some p)
    (hlobby : L.stage ≠ .lobby) :
    (replyIndex p.op = 0 → L.stage = .issuing ∧ p.op = L.requestOp) ∧
    (replyIndex p.op = 1 → L.stage = .registering ∧ p.op = L.requestOp) ∧
    (replyIndex p.op = 2 → L.stage = .polling) ∧ (replyIndex p.op = 3 → p.op = .hostReport) := by
  have hfits := h.fits p hp
  cases hstage : L.stage with
  | lobby => exact absurd hstage hlobby
  | issuing =>
    rw [hstage] at hfits
    have hfits : p.op = L.requestOp := hfits
    rcases h.issues hstage with hop | hop <;> rw [hop] at hfits <;> simp [hfits, hop, replyIndex]
  | stun =>
    rw [hstage] at hfits
    have hfits : p.op = .hostReport := hfits
    simp [hfits, replyIndex]
  | registering =>
    rw [hstage] at hfits
    have hfits : p.op = L.requestOp ∨ p.op = .hostReport := hfits
    rcases hfits with hfits | hfits
    · rw [h.registers hstage] at hfits
      simp [hfits, h.registers hstage, replyIndex]
    · simp [hfits, replyIndex]
  | polling =>
    rw [hstage] at hfits
    have hfits : p.op = .getPeers := hfits
    simp [hfits, replyIndex]
  | settled =>
    rw [hstage] at hfits
    have hfits : p.op = .hostReport := hfits
    simp [hfits, replyIndex]

theorem resultLine_same (L : Lobby) (op : Op) (outcome : Outcome) (failure : Failure) :
    SameStage L (L.resultLine op outcome failure) := sameStage_out L _

theorem takeReply_handled (h : Invariant L) {p : Pending} (hp : L.pending = some p)
    (hlobby : L.stage ≠ .lobby) {reply : ReplyBody} (hindex : reply.index = replyIndex p.op)
    (op : Op) :
    Handled ({ L with pending := none }.takeReply io op p reply) := by
  obtain ⟨hissued, hregistered, hpeers, hreport⟩ := h.stageOf hp hlobby
  cases reply with
  | issued r =>
    obtain ⟨hstage, hop⟩ := hissued hindex.symm
    exact ((h.answered hp hop (.inl hstage)).same
      (resultLine_same _ op r.outcome r.failure)).onIssued hstage r
  | registered r =>
    obtain ⟨hstage, hop⟩ := hregistered hindex.symm
    exact ((h.answered hp hop (.inr hstage)).same
      (resultLine_same _ op r.outcome r.failure)).onRegistered hstage r
  | peers r =>
    have hstage := hpeers hindex.symm
    have hpolled : Polled { L with pending := none } :=
      ⟨h.toSound.unpend, rfl, hstage, (h.polling hstage).1⟩
    have hlogged := resultLine_same { L with pending := none } op (asPlayerReply r).outcome
      (asPlayerReply r).failure
    exact Polled.onPeers ⟨hpolled.toSound.same hlogged, rfl, hstage, hpolled.deadline⟩
      (asPlayerReply r)
  | hostReport r =>
    have hreporting := h.reporting_answered hp (hreport hindex.symm) hlobby
    have hlogged := resultLine_same { L with pending := none } op r.outcome r.failure
    exact Reporting.onHostReport ⟨hreporting.toIdle.same hlogged, hreporting.reporting⟩ r p

/-- Where no reply comes that could be taken, the attempt fails. -/
theorem unanswered_invariant (h : Invariant L) {p : Pending} (hp : L.pending = some p)
    (hlobby : L.stage ≠ .lobby) (out : Batch) (code : FailCode) :
    Invariant ({ L with pending := none, out := out }.fail code) := by
  have hsound : Sound { L with pending := none, out := out } :=
    h.toSound.unpend.same (sameStage_out _ out)
  refine Failed.invariant (L := { L with pending := none, out := out })
    (fail_cases _ _) h.defined ?_
  intro _ (hstage : L.stage = .settled)
  have hfits := h.fits p hp
  rw [hstage] at hfits
  exact ⟨hsound, rfl, (h.reports (h.reported p hp hlobby hfits)).2.1⟩

theorem onReply_invariant (h : Invariant L) (reply : ControlReply) :
    Invariant (L.onReply io reply) := by
  unfold onReply
  cases hpending : L.pending with
  | none => exact ((Says.refl L).push rfl).invariant h
  | some p =>
    dsimp only
    by_cases hmatch : p.op ≠ reply.op ∨ reply.reply.index ≠ replyIndex p.op
    · rw [if_pos hmatch]
      by_cases hlobby : L.stage = .lobby
      · rw [if_neg (by simp [(h.orphaned p hpending).mpr hlobby])]
        exact runDue_invariant ((h.orphan hlobby).same (sameStage_out _ _))
      · have horphan : p.orphaned = false := by
          simpa using fun htrue => hlobby ((h.orphaned p hpending).mp htrue)
        rw [if_pos (by simp [horphan, inLobby, log, push, hlobby])]
        have hfailed := unanswered_invariant h hpending hlobby
          { L.out with actions := L.out.actions ++ [.logLine .warn "control.reply_mismatch"
            [⟨"op", ascii (opName p.op)⟩]] }
          .controlPlaneExchangeFailed
        exact Handled.runDue (.inl hfailed)
    · rw [if_neg hmatch]
      obtain ⟨-, hindex⟩ := not_or.mp hmatch
      by_cases hlobby : L.stage = .lobby
      · rw [if_pos ((h.orphaned p hpending).mpr hlobby)]
        have hidle := (h.orphan hlobby).same (sameStage_out _
          { L.out with actions := L.out.actions ++ [.logLine .info "control.discarded"
            [⟨"op", ascii (opName reply.op)⟩]] })
        exact hidle.invariant (h.cleared hlobby).requestDue (h.cleared hlobby).reportDue
      · rw [if_neg fun htrue => hlobby ((h.orphaned p hpending).mp htrue)]
        exact (takeReply_handled h hpending hlobby (not_not.mp hindex) reply.op).runDue

theorem onSubmitDropped_invariant (h : Invariant L) : Invariant L.onSubmitDropped := by
  unfold onSubmitDropped
  cases hpending : L.pending with
  | none => exact h
  | some p =>
    dsimp only
    by_cases hlobby : L.stage = .lobby
    · rw [if_neg (by simp [(h.orphaned p hpending).mpr hlobby])]
      exact (h.orphan hlobby).invariant (h.cleared hlobby).requestDue (h.cleared hlobby).reportDue
    · have horphan : p.orphaned = false := by
        simpa using fun htrue => hlobby ((h.orphaned p hpending).mp htrue)
      rw [if_pos (by simp [horphan, inLobby, hlobby])]
      exact unanswered_invariant h hpending hlobby L.out _

/-! ## Sessions -/

theorem Sound.closed (h : Sound L) (peerId : U32) (out : Batch) (hrole : L.role ≠ .player)
    (hpairs : L.pairs ≠ []) :
    Sound (L.closed peerId out) := by
  have hlobby : L.stage ≠ .lobby := fun hlobby => hpairs (h.cleared hlobby).pairs
  have hstage : L.stage = .settled := by
    by_contra hnot
    exact hpairs (h.early hnot)
  constructor
  case cleared => exact fun hfalse => absurd hfalse hlobby
  case orphaned => exact h.orphaned
  case fits => exact h.fits
  case role => exact h.role
  case token => exact h.token
  case reports => exact h.reports
  case reported => exact h.reported
  case ended => exact h.ended
  case polls => exact h.polls
  case issues => exact h.issues
  case registers => exact h.registers
  case requestDue => exact h.requestDue
  case reportDue => exact h.reportDue
  case timers =>
    intro n hn
    obtain ⟨hold, hother⟩ := List.mem_filter.mp hn
    have hbelongs := h.timers n hold
    cases n with
    | punch id =>
      obtain ⟨p, hp, hid, hactive⟩ := hbelongs
      have hne : p.peerId ≠ peerId := by
        intro heq
        simp [← hid, heq] at hother
      exact ⟨p, List.mem_map.mpr ⟨p, hp, if_neg hne⟩, hid, hactive⟩
    | _ => exact hbelongs
  case distinct => exact h.distinct.filter _
  case keys =>
    have hids : (L.deactivate peerId).pairs.map (·.peerId) = L.pairs.map (·.peerId) := by
      unfold deactivate
      rw [List.map_map]
      apply List.map_congr_left
      intro p _
      dsimp only [Function.comp]
      split_ifs
      · rfl
      · rfl
    exact hids ▸ h.keys
  case early => exact fun hfalse => absurd hstage hfalse
  case player => exact fun hplayer => absurd hplayer hrole
  case defined => exact h.defined

theorem Asked.closed (h : Asked L) (peerId : U32) (out : Batch) (hrole : L.role ≠ .player)
    (hpairs : L.pairs ≠ []) :
    Asked (L.closed peerId out) := by
  have hstage : L.stage = .settled := by
    by_contra hnot
    exact hpairs (h.early hnot)
  constructor
  case toSound => exact h.toSound.closed peerId out hrole hpairs
  case asking =>
    exact fun hstep => by
      rcases hstep with hstep | hstep <;> exact absurd (hstage.symm.trans hstep) (by decide)
  case polling => exact fun hpolling => absurd (hstage.symm.trans hpolling) (by decide)

theorem Closed.invariant {peerId : U32} (k : Closed L peerId L') (h : Invariant L)
    (hpairs : L.pairs ≠ []) :
    Invariant L' := by
  cases k with
  | player out _ _ => exact left_invariant h.defined out
  | ended out _ _ _ => exact left_invariant h.defined out
  | reported out token _ hrole hreporting _ _ hreported =>
    exact hreported.invariant (h.toAsked.closed peerId out hrole hpairs) hreporting
  | stays out hrole hreporting _ halive =>
    constructor
    case toAsked => exact h.toAsked.closed peerId out hrole hpairs
    case cycle => exact fun htrue => absurd (hreporting.symm.trans htrue) (by decide)
    case behind => exact h.behind
    case alive => exact halive

theorem closePair_invariant (h : Invariant L) (peerId : U32) (failure : Option FailCode) :
    Invariant (L.closePair peerId failure) := by
  cases hpair : L.findPair peerId with
  | none =>
    unfold closePair
    rw [hpair]
    exact h
  | some pair =>
    by_cases hactive : pair.active = true
    · have hclosed := closePair_cases hpair hactive failure fun htrue =>
        ⟨(h.reports htrue).2.1, h.token (h.reportStages htrue).1 (h.reportStages htrue).2.1⟩
      exact hclosed.invariant h (List.ne_nil_of_mem (findPair_some hpair).1)
    · unfold closePair
      rw [hpair]
      dsimp only
      rw [if_pos (by simpa using hactive)]
      exact h

theorem onSessionEvent_invariant (h : Invariant L) (event : SessionEvent) :
    Invariant (L.onSessionEvent event) := by
  unfold onSessionEvent
  by_cases hconnected : event.after = .connected
  · rw [if_pos hconnected]
    cases L.findPair event.peerId with
    | none => exact h
    | some pair => exact Says.invariant (.when ((Says.refl L).push rfl) (.refl L)) h
  · rw [if_neg hconnected]
    split_ifs
    · exact h
    · exact closePair_invariant h _ _
    · exact closePair_invariant h _ _

theorem clearPairName_eq (L : Lobby) (peerId : U32) : ∃ f : Pair → Pair,
    (∀ p, (f p).peerId = p.peerId ∧ (f p).active = p.active) ∧
    L.clearPairName peerId = { L with pairs := L.pairs.map f } := by
  refine ⟨fun p => if p.peerId = peerId then { p with name := [] } else p, ?_, rfl⟩
  intro p
  dsimp only
  split_ifs
  · exact ⟨rfl, rfl⟩
  · exact ⟨rfl, rfl⟩

theorem Sound.rename (h : Sound L) {f : Pair → Pair}
    (hf : ∀ p, (f p).peerId = p.peerId ∧ (f p).active = p.active) :
    Sound { L with pairs := L.pairs.map f } where
  cleared hlobby := by
    obtain ⟨c1, c2, c3, c4, c5, c6, c7, c8, c9, c10⟩ := h.cleared hlobby
    exact ⟨c1, c2, c3, c4, c5, c6, c7, c8, by rw [c9]; rfl, c10⟩
  orphaned := h.orphaned
  fits := h.fits
  role := h.role
  token := h.token
  reports := h.reports
  reported := h.reported
  ended := h.ended
  polls := h.polls
  issues := h.issues
  registers := h.registers
  requestDue := h.requestDue
  reportDue := h.reportDue
  timers n hn := by
    have hbelongs := h.timers n hn
    cases n with
    | punch id =>
      obtain ⟨p, hp, hid, hactive⟩ := hbelongs
      exact ⟨f p, List.mem_map_of_mem hp, (hf p).1.trans hid, (hf p).2.trans hactive⟩
    | _ => exact hbelongs
  distinct := h.distinct
  keys := by
    have hids : (L.pairs.map f).map (·.peerId) = L.pairs.map (·.peerId) := by
      rw [List.map_map]
      exact List.map_congr_left fun p _ => (hf p).1
    exact hids ▸ h.keys
  early hstage := by
    dsimp only
    rw [h.early hstage]
    rfl
  player hplayer hstage := by
    obtain ⟨p, hp, hactive⟩ := h.player hplayer hstage
    refine ⟨f p, ?_, (hf p).2.trans hactive⟩
    dsimp only
    rw [hp]
    rfl
  defined := h.defined

theorem Invariant.rename (h : Invariant L) {f : Pair → Pair}
    (hf : ∀ p, (f p).peerId = p.peerId ∧ (f p).active = p.active) :
    Invariant { L with pairs := L.pairs.map f } := by
  have hactive : (L.pairs.map f).countP (·.active) = L.pairs.countP (·.active) := by
    rw [List.countP_map]
    apply List.countP_congr
    intro p _
    simp [(hf p).2]
  constructor
  case toAsked =>
    constructor
    case toSound => exact h.toSound.rename hf
    case asking =>
      intro hstage
      cases h.asking hstage with
      | sent p hp hop hdue hretry htries => exact .sent p hp hop hdue hretry htries
      | resting hp hdue hretry htries => exact .resting hp hdue hretry htries
      | deferred p hp hop hdue hretry htries => exact .deferred p hp hop hdue hretry htries
    case polling =>
      intro hstage
      obtain ⟨hdeadline, hpolling⟩ := h.polling hstage
      cases hpolling with
      | sent p hp hpoll => exact ⟨hdeadline, .sent p hp hpoll⟩
      | resting hp hpoll => exact ⟨hdeadline, .resting hp hpoll⟩
  case cycle => exact h.cycle
  case behind => exact h.behind
  case alive =>
    intro hended
    have halive : 0 < L.pairs.countP (·.active) := h.alive hended
    rw [← hactive] at halive
    exact halive

theorem onSessionOpenFailed_invariant (h : Invariant L) (peerId : U32) :
    Invariant (L.onSessionOpenFailed peerId) := by
  unfold onSessionOpenFailed
  cases L.findPair peerId with
  | none => exact h
  | some pair =>
    dsimp only
    split_ifs
    · exact h
    · generalize hM : push (log L .error "session.failed" _) _ = M
      have hsaid : Says L M := by
        subst hM
        exact ((Says.refl L).push rfl).push rfl
      obtain ⟨f, hf, heq⟩ := clearPairName_eq M peerId
      rw [heq]
      exact closePair_invariant ((hsaid.invariant h).rename hf) peerId _

theorem onShutdown_invariant (h : Invariant L) : Invariant L.onShutdown := by
  unfold onShutdown
  split_ifs
  · exact h
  · obtain ⟨out, -, heq⟩ := unfinished_eq L "ABORTED" "shutdown" false
    rw [heq]
    exact left_invariant h.defined out

/-! ## The own endpoint -/

theorem Sound.registering (h : Sound L) (hstage : L.stage = .stun) (body : Body) :
    Sound
      { L with
        stage := .registering
        requestOp := .registerCandidate
        requestBody := body
        tries := 0 } := by
  have hended : ¬L.roomEnded = true :=
    fun htrue => absurd ((h.ended htrue).1.symm.trans hstage) (by decide)
  have hpairs : L.pairs = [] := h.early (by rw [hstage]; decide)
  have hlobby : L.stage ≠ .lobby := by rw [hstage]; decide
  have hreport : ∀ p, L.pending = some p → p.op = .hostReport := by
    intro p hp
    have hfits := h.fits p hp
    rw [hstage] at hfits
    exact hfits
  constructor
  case cleared => exact nofun
  case orphaned =>
    intro p hp
    exact iff_of_false (fun htrue => hlobby ((h.orphaned p hp).mp htrue)) nofun
  case fits => exact fun p hp => .inr (hreport p hp)
  case role => exact fun _ => h.role hlobby
  case token => exact fun _ _ => h.token hlobby (by rw [hstage]; decide)
  case reports => exact fun htrue => ⟨(h.reports htrue).1, (h.reports htrue).2.1, .inr (.inl rfl)⟩
  case reported => exact fun p hp _ hop => h.reported p hp hlobby hop
  case ended => exact fun htrue => absurd htrue hended
  case polls => exact nofun
  case issues => exact nofun
  case registers => exact fun _ => rfl
  case requestDue => exact fun _ => .inr rfl
  case reportDue => exact h.reportDue
  case timers =>
    intro n hn
    have hbelongs := h.timers n hn
    unfold Belongs at hbelongs ⊢
    rw [hstage] at hbelongs
    cases n with
    | retry => exact .inr rfl
    | hostReport => exact hbelongs
    | punch id => exact hbelongs
    | _ => simp at hbelongs
  case distinct => exact h.distinct
  case keys => exact h.keys
  case early => exact fun _ => hpairs
  case player => exact nofun
  case defined => exact h.defined

theorem onStunDone_invariant (h : Invariant L) (ok : Bool) (mappings : List StunMapping) :
    Invariant (L.onStunDone io ok mappings) := by
  unfold onStunDone
  by_cases hstage : L.stage = .stun
  · rw [if_neg (not_not_intro hstage)]
    dsimp only
    have hearly : ¬(({ L with stage := .registering } : Lobby).role = .host ∧
        ({ L with stage := .registering } : Lobby).stage = .settled) := by
      rintro ⟨-, hsettled⟩
      cases hsettled
    obtain ⟨token, htoken⟩ := Option.isSome_iff_exists.mp
      (h.token (by rw [hstage]; decide) (by rw [hstage]; decide))
    split_ifs
    · exact fail_early h.defined hearly
    · rw [withToken_some (L := { L with stage := .registering }) htoken]
      cases registerCandidateBody L.roomId L.peerId token
        (io.collect (mappings.map (·.mapped))) with
      | none => exact fail_early h.defined hearly
      | some body =>
        refine sendOrDeferRequest_invariant (h.toSound.registering hstage body)
          (.inr rfl) ?_ tries_left ?_ h.cycle
        · intro hretry
          have hbelongs : L.stage = .issuing ∨ L.stage = .registering := h.timers _ hretry
          rw [hstage] at hbelongs
          simp at hbelongs
        · intro p hp
          have hfits := h.fits p hp
          rw [hstage] at hfits
          exact hfits
  · rw [if_pos hstage]
    exact h

/-! ## Timers -/

theorem Sound.forgetArmed (h : Sound L) (name : TimerName) : Sound (L.forgetArmed name) :=
  @Sound.arms _ _ L.out h (h.distinct.filter _) fun n hn => h.timers n (List.mem_filter.mp hn).1

theorem mem_forgetArmed {name n : TimerName} (hn : n ∈ L.armed) (hne : n ≠ name) :
    n ∈ (L.forgetArmed name).armed :=
  List.mem_filter.mpr ⟨hn, by simpa using hne⟩

theorem not_mem_forgetArmed (name : TimerName) : name ∉ (L.forgetArmed name).armed := by
  intro hname
  simpa using (List.mem_filter.mp hname).2

theorem retryTimer_invariant (h : Invariant L) (hretry : .retry ∈ L.armed) :
    Invariant (L.forgetArmed .retry).sendOrDeferRequest := by
  have hstage : L.stage = .issuing ∨ L.stage = .registering := h.timers _ hretry
  have hcycle : L.reporting = true → .hostReport ∈ (L.forgetArmed .retry).armed ∨
    L.reportDue = true := by
    intro hreporting
    rcases h.cycle hreporting with harmed | hdue
    · exact .inl (mem_forgetArmed harmed (by decide))
    · exact .inr hdue
  cases h.asking hstage with
  | sent _ _ _ _ hnot _ => exact absurd hretry hnot
  | deferred _ _ _ _ hnot _ => exact absurd hretry hnot
  | resting hbehind _ _ htries =>
    exact sendOrDeferRequest_invariant (h.toSound.forgetArmed _) hstage
      (not_mem_forgetArmed _) htries hbehind hcycle

theorem pollTimer_invariant (h : Invariant L) (hpoll : .poll ∈ L.armed) :
    Invariant (L.forgetArmed .poll).onPollTimer := by
  have hstage : L.stage = .polling := h.timers _ hpoll
  have hreporting : ¬L.reporting = true := fun htrue => (h.reportStages htrue).2.2 hstage
  have hended : ¬L.roomEnded = true :=
    fun htrue => absurd ((h.ended htrue).1.symm.trans hstage) (by decide)
  obtain ⟨hdeadline, hpolling⟩ := h.polling hstage
  have hfree : L.pending = none := by
    cases hpolling with
    | sent _ _ hnot => exact absurd hpoll hnot
    | resting hnone _ => exact hnone
  obtain ⟨token, htoken⟩ := Option.isSome_iff_exists.mp
    (h.token (by rw [hstage]; decide) (by rw [hstage]; decide))
  unfold onPollTimer
  rw [if_pos ⟨hstage, hfree⟩, withToken_some (L := L.forgetArmed .poll) htoken]
  have hsound := h.toSound.forgetArmed .poll
  cases getPeersBody (L.forgetArmed .poll).roomId (L.forgetArmed .poll).peerId token with
  | none =>
    exact fail_early h.defined fun hsettled => absurd (hstage.symm.trans hsettled.2) (by decide)
  | some body =>
    have hlobby : L.stage ≠ .lobby := by rw [hstage]; decide
    have hfits : OpFits L.requestOp L.stage .getPeers := by
      rw [hstage]
      rfl
    constructor
    case toAsked =>
      constructor
      case toSound => exact hsound.submitted hlobby hfits nofun
      case asking =>
        exact fun hstep => by
          rcases hstep with hstep | hstep <;> exact absurd (hstage.symm.trans hstep) (by decide)
      case polling =>
        exact fun _ => ⟨mem_forgetArmed hdeadline (by decide), .sent _ rfl (not_mem_forgetArmed _)⟩
    case cycle => exact fun htrue => absurd htrue hreporting
    case behind => exact fun _ => rfl
    case alive => exact fun htrue => absurd htrue hended

theorem reportTimer_invariant (h : Invariant L) (hreport : .hostReport ∈ L.armed) :
    Invariant (L.forgetArmed .hostReport).sendHostReport := by
  refine sendHostReport_invariant ⟨h.toSound.forgetArmed _, ?_, ?_⟩ (h.timers _ hreport)
  · intro hstage
    cases h.asking hstage with
    | sent p hp hop hdue hretry htries =>
      exact .sent p hp hop hdue (fun hnot => hretry (List.mem_filter.mp hnot).1) htries
    | resting hbehind hdue hretry htries =>
      exact .resting hbehind hdue (mem_forgetArmed hretry (by decide)) htries
    | deferred p hp hop hdue hretry htries =>
      exact .deferred p hp hop hdue (fun hnot => hretry (List.mem_filter.mp hnot).1) htries
  · exact fun hstage => absurd hstage (h.reportStages (h.timers _ hreport)).2.2

theorem punchTimer_invariant (h : Invariant L) (peerId : U32) (out : Batch) :
    Invariant { L.forgetArmed (.punch peerId) with out := out } := by
  constructor
  case toAsked =>
    constructor
    case toSound => exact (h.toSound.forgetArmed _).same (sameStage_out _ out)
    case asking =>
      intro hstage
      cases h.asking hstage with
      | sent p hp hop hdue hretry htries =>
        exact .sent p hp hop hdue (fun hnot => hretry (List.mem_filter.mp hnot).1) htries
      | resting hbehind hdue hretry htries =>
        exact .resting hbehind hdue (mem_forgetArmed hretry nofun) htries
      | deferred p hp hop hdue hretry htries =>
        exact .deferred p hp hop hdue (fun hnot => hretry (List.mem_filter.mp hnot).1) htries
    case polling =>
      intro hstage
      obtain ⟨hdeadline, hpolling⟩ := h.polling hstage
      refine ⟨mem_forgetArmed hdeadline nofun, ?_⟩
      cases hpolling with
      | sent p hp hpoll => exact .sent p hp fun hnot => hpoll (List.mem_filter.mp hnot).1
      | resting hp hpoll => exact .resting hp (mem_forgetArmed hpoll nofun)
  case cycle =>
    intro hreporting
    rcases h.cycle hreporting with harmed | hdue
    · exact .inl (mem_forgetArmed harmed nofun)
    · exact .inr hdue
  case behind => exact h.behind
  case alive => exact h.alive

theorem onTimer_invariant (h : Invariant L) (name : TimerName) : Invariant (L.onTimer name) := by
  unfold onTimer
  by_cases hstray : (!ownsTimer name) = true ∨ name ∉ L.armed
  · rw [if_pos hstray]
    exact h
  · rw [if_neg hstray]
    have harmed : name ∈ L.armed := not_not.mp (not_or.mp hstray).2
    have hbelongs := h.timers name harmed
    dsimp only
    cases name with
    | retry =>
      have hstage : L.stage = .issuing ∨ L.stage = .registering := hbelongs
      dsimp only
      rw [if_pos (c := (L.forgetArmed .retry).stage = _ ∨ (L.forgetArmed .retry).stage = _) hstage]
      exact retryTimer_invariant h harmed
    | poll => exact pollTimer_invariant h harmed
    | deadline =>
      have hstage : L.stage = .polling := hbelongs
      dsimp only
      rw [if_pos (c := (L.forgetArmed .deadline).stage = _) hstage]
      exact fail_early h.defined fun hsettled => absurd (hstage.symm.trans hsettled.2) (by decide)
    | hostReport =>
      have hreporting : L.reporting = true := hbelongs
      dsimp only
      rw [if_pos (c := (L.forgetArmed .hostReport).reporting = true) hreporting]
      exact reportTimer_invariant h harmed
    | punch peerId => exact punchTimer_invariant h peerId _
    | stunRetry server => exact absurd hbelongs id
    | stunDeadline server => exact absurd hbelongs id
    | other name => exact absurd hbelongs id

/-! ## Runs -/

theorem step_invariant (h : Invariant L) (io : LobbyIo) (event : LobbyEvent) :
    Invariant (L.step io event) := by
  have hfresh : Invariant { L with out := {} } := h.same (sameStage_out L _)
  unfold step
  cases event with
  | start => exact ((Says.refl _).guide _).invariant hfresh
  | command c => exact onCommand_invariant hfresh c
  | reply r => exact onReply_invariant hfresh r
  | submitDropped => exact onSubmitDropped_invariant hfresh
  | stunDone ok mappings => exact onStunDone_invariant hfresh ok mappings
  | timer name => exact onTimer_invariant hfresh name
  | session e => exact onSessionEvent_invariant hfresh e
  | sessionOpenFailed peerId => exact onSessionOpenFailed_invariant hfresh peerId
  | shutdown => exact onShutdown_invariant hfresh

theorem create_invariant (name : Bytes) : Invariant (create name) := by
  constructor
  case toAsked =>
    constructor
    case toSound =>
      constructor
      case cleared => exact fun _ => ⟨rfl, rfl, rfl, rfl, rfl, rfl, rfl, rfl, rfl, rfl⟩
      all_goals simp [create, OpFits]
    all_goals simp [create]
  all_goals simp [create]

theorem run_invariant {h : List Entry} (hrun : Run h L) : Invariant L := by
  induction hrun with
  | start name => exact create_invariant name
  | event io e _ ih => exact step_invariant ih io e

end Sangtachi.Lobby
