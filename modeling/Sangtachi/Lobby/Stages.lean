import Sangtachi.Lobby.Outcomes

/-! # The stages of an attempt

What every stage of the lobby waits for. In each stage some trigger is alive: a request under way,
an armed timer, or a request that is marked as due behind the one under way. -/
namespace Sangtachi.Lobby

open Sangtachi.BigEndian Sangtachi.Packet Sangtachi.Peer Sangtachi.Tunnel

variable {L L' : Lobby} {io : LobbyIo}

/-- The operations that can be under way in a stage of an attempt. -/
def OpFits (requestOp : Op) : LobbyStage → Op → Prop
  | .lobby, _ => True
  | .issuing, op => op = requestOp
  | .stun, op => op = .hostReport
  | .registering, op => op = requestOp ∨ op = .hostReport
  | .polling, op => op = .getPeers
  | .settled, op => op = .hostReport

/-- Nothing of an attempt is left in the lobby. -/
structure Cleared (L : Lobby) : Prop where
  role : L.role = .none
  roomId : L.roomId = []
  token : L.token = none
  requestDue : L.requestDue = false
  reporting : L.reporting = false
  reportDue : L.reportDue = false
  roomEnded : L.roomEnded = false
  departed : L.departed = []
  pairs : L.pairs = []
  armed : L.armed = []

def Belongs (L : Lobby) : TimerName → Prop
  | .retry => L.stage = .issuing ∨ L.stage = .registering
  | .poll | .deadline => L.stage = .polling
  | .hostReport => L.reporting = true
  | .punch id => ∃ p ∈ L.pairs, p.peerId = id ∧ p.active = true
  | _ => False

/-- What holds also while an event is being handled. -/
structure Sound (L : Lobby) : Prop where
  cleared : L.stage = .lobby → Cleared L
  orphaned : ∀ p, L.pending = some p → (p.orphaned = true ↔ L.stage = .lobby)
  fits : ∀ p, L.pending = some p → OpFits L.requestOp L.stage p.op
  role : L.stage ≠ .lobby → L.role ≠ .none
  token : L.stage ≠ .lobby → L.stage ≠ .issuing → L.token.isSome = true
  reports : L.reporting = true → L.role = .host ∧ L.roomEnded = false ∧
    (L.stage = .stun ∨ L.stage = .registering ∨ L.stage = .settled)
  reported : ∀ p, L.pending = some p → L.stage ≠ .lobby → p.op = .hostReport → L.reporting = true
  ended : L.roomEnded = true → L.stage = .settled ∧ L.role = .host
  polls : L.stage = .polling → L.role = .player
  issues : L.stage = .issuing → L.requestOp = .createRoom ∨ L.requestOp = .joinRoom
  registers : L.stage = .registering → L.requestOp = .registerCandidate
  requestDue : L.requestDue = true → L.stage = .issuing ∨ L.stage = .registering
  reportDue : L.reportDue = true → L.reporting = true
  timers : ∀ n ∈ L.armed, Belongs L n
  distinct : L.armed.Nodup
  keys : (L.pairs.map (·.peerId)).Nodup
  early : L.stage ≠ .settled → L.pairs = []
  player : L.role = .player → L.stage = .settled → ∃ p, L.pairs = [p] ∧ p.active = true
  defined : L.undefined = false

/-- What the request of a step waits for. -/
inductive Asking (L : Lobby) : Prop where
  | sent (p : Pending) : L.pending = some p → p.op = L.requestOp → L.requestDue = false →
    .retry ∉ L.armed →
      L.tries ≤ maxTries → Asking L
  | resting : (∀ p, L.pending = some p → p.op = .hostReport) → L.requestDue = false →
    .retry ∈ L.armed →
      L.tries < maxTries → Asking L
  | deferred (p : Pending) : L.pending = some p → p.op = .hostReport → L.requestDue = true →
    .retry ∉ L.armed →
      L.tries < maxTries → Asking L

inductive Polling (L : Lobby) : Prop where
  | sent (p : Pending) : L.pending = some p → .poll ∉ L.armed → Polling L
  | resting : L.pending = none → .poll ∈ L.armed → Polling L

/-- The request and the poll are alive; the reports of the host are left aside. -/
structure Asked (L : Lobby) : Prop extends Sound L where
  asking : L.stage = .issuing ∨ L.stage = .registering → Asking L
  polling : L.stage = .polling → .deadline ∈ L.armed ∧ Polling L

/-- What holds between events. -/
structure Invariant (L : Lobby) : Prop extends Asked L where
  cycle : L.reporting = true → .hostReport ∈ L.armed ∨ L.reportDue = true
  behind : L.reportDue = true → L.pending.isSome = true
  alive : L.roomEnded = true → 0 < L.activePairs

/-! ## Changes that no stage sees -/

/-- The lobbies differ in their actions at most, and in values that no stage waits for. -/
structure SameStage (L L' : Lobby) : Prop where
  stage : L'.stage = L.stage
  role : L'.role = L.role
  pending : L'.pending = L.pending
  roomId : L'.roomId = L.roomId
  token : L'.token = L.token
  requestOp : L'.requestOp = L.requestOp
  tries : L'.tries = L.tries
  requestDue : L'.requestDue = L.requestDue
  reporting : L'.reporting = L.reporting
  reportDue : L'.reportDue = L.reportDue
  roomEnded : L'.roomEnded = L.roomEnded
  pairs : L'.pairs = L.pairs
  armed : L'.armed = L.armed
  undefined : L'.undefined = L.undefined
  departed : L.stage = .lobby → L'.departed = L.departed

theorem Belongs.same (k : SameStage L L') (n : TimerName) : Belongs L' n ↔ Belongs L n := by
  cases n <;> simp only [Belongs, k.stage, k.reporting, k.pairs]

theorem Sound.same (h : Sound L) (k : SameStage L L') : Sound L' where
  cleared hlobby := by
    obtain ⟨c1, c2, c3, c4, c5, c6, c7, c8, c9, c10⟩ := h.cleared (k.stage ▸ hlobby)
    exact ⟨k.role.trans c1, k.roomId.trans c2, k.token.trans c3, k.requestDue.trans c4,
      k.reporting.trans c5,
      k.reportDue.trans c6, k.roomEnded.trans c7, (k.departed (k.stage ▸ hlobby)).trans c8,
      k.pairs.trans c9,
      k.armed.trans c10⟩
  orphaned := by rw [k.pending, k.stage]; exact h.orphaned
  fits := by rw [k.pending, k.requestOp, k.stage]; exact h.fits
  role := by rw [k.stage, k.role]; exact h.role
  token := by rw [k.stage, k.token]; exact h.token
  reports := by rw [k.reporting, k.role, k.roomEnded, k.stage]; exact h.reports
  reported := by rw [k.pending, k.stage, k.reporting]; exact h.reported
  ended := by rw [k.roomEnded, k.stage, k.role]; exact h.ended
  polls := by rw [k.stage, k.role]; exact h.polls
  issues := by rw [k.stage, k.requestOp]; exact h.issues
  registers := by rw [k.stage, k.requestOp]; exact h.registers
  requestDue := by rw [k.requestDue, k.stage]; exact h.requestDue
  reportDue := by rw [k.reportDue, k.reporting]; exact h.reportDue
  timers n hn := (Belongs.same k n).mpr (h.timers n (k.armed ▸ hn))
  distinct := by rw [k.armed]; exact h.distinct
  keys := by rw [k.pairs]; exact h.keys
  early := by rw [k.stage, k.pairs]; exact h.early
  player := by rw [k.role, k.stage, k.pairs]; exact h.player
  defined := k.undefined.trans h.defined

theorem Asking.same (h : Asking L) (k : SameStage L L') : Asking L' := by
  cases h with
  | sent p hp hop hdue hretry htries =>
    exact .sent p (k.pending.trans hp) (hop.trans k.requestOp.symm) (k.requestDue.trans hdue)
      (k.armed ▸ hretry)
      (k.tries ▸ htries)
  | resting hp hdue hretry htries =>
    exact .resting (k.pending ▸ hp) (k.requestDue.trans hdue) (k.armed ▸ hretry) (k.tries ▸ htries)
  | deferred p hp hop hdue hretry htries =>
    exact .deferred p (k.pending.trans hp) hop (k.requestDue.trans hdue) (k.armed ▸ hretry)
      (k.tries ▸ htries)

theorem Asked.same (h : Asked L) (k : SameStage L L') : Asked L' where
  toSound := h.toSound.same k
  asking hstage := (h.asking (k.stage ▸ hstage)).same k
  polling hstage := by
    obtain ⟨hdeadline, hpolling⟩ := h.polling (k.stage ▸ hstage)
    refine ⟨k.armed ▸ hdeadline, ?_⟩
    cases hpolling with
    | sent p hp hpoll => exact .sent p (k.pending.trans hp) (k.armed ▸ hpoll)
    | resting hp hpoll => exact .resting (k.pending.trans hp) (k.armed ▸ hpoll)

theorem Invariant.same (h : Invariant L) (k : SameStage L L') : Invariant L' where
  toAsked := h.toAsked.same k
  cycle hreporting := by
    rw [k.armed, k.reportDue]
    exact h.cycle (k.reporting ▸ hreporting)
  behind hdue := by
    rw [k.pending]
    exact h.behind (k.reportDue ▸ hdue)
  alive hended := by
    unfold activePairs
    rw [k.pairs]
    exact h.alive (k.roomEnded ▸ hended)

theorem SameStage.refl (L : Lobby) : SameStage L L :=
  ⟨rfl, rfl, rfl, rfl, rfl, rfl, rfl, rfl, rfl, rfl, rfl, rfl, rfl, rfl, fun _ => rfl⟩

theorem SameStage.trans {M : Lobby} (h : SameStage L L') (k : SameStage L' M) : SameStage L M where
  stage := k.stage.trans h.stage
  role := k.role.trans h.role
  pending := k.pending.trans h.pending
  roomId := k.roomId.trans h.roomId
  token := k.token.trans h.token
  requestOp := k.requestOp.trans h.requestOp
  tries := k.tries.trans h.tries
  requestDue := k.requestDue.trans h.requestDue
  reporting := k.reporting.trans h.reporting
  reportDue := k.reportDue.trans h.reportDue
  roomEnded := k.roomEnded.trans h.roomEnded
  pairs := k.pairs.trans h.pairs
  armed := k.armed.trans h.armed
  undefined := k.undefined.trans h.undefined
  departed hlobby := (k.departed (h.stage.trans hlobby)).trans (h.departed hlobby)

theorem sameStage_out (L : Lobby) (out : Batch) : SameStage L { L with out := out } :=
  ⟨rfl, rfl, rfl, rfl, rfl, rfl, rfl, rfl, rfl, rfl, rfl, rfl, rfl, rfl, fun _ => rfl⟩

/-! ## Timers -/

theorem Sound.arms {armed : List TimerName} {out : Batch} (h : Sound L) (hdistinct : armed.Nodup)
    (htimers : ∀ n ∈ armed, Belongs L n) : Sound { L with armed := armed, out := out } where
  cleared hlobby := by
    obtain ⟨c1, c2, c3, c4, c5, c6, c7, c8, c9, c10⟩ := h.cleared hlobby
    have hnone : armed = [] := by
      apply List.eq_nil_iff_forall_not_mem.mpr
      intro n hn
      have hn := htimers n hn
      unfold Belongs at hn
      rw [show L.stage = .lobby from hlobby, c5, c9] at hn
      cases n <;> simp at hn
    exact ⟨c1, c2, c3, c4, c5, c6, c7, c8, c9, hnone⟩
  orphaned := h.orphaned
  fits := h.fits
  role := h.role
  token := h.token
  reports := h.reports
  reported := h.reported
  ended := h.ended
  polls := h.polls
  issues := h.issues
  registers := h.registers
  requestDue := h.requestDue
  reportDue := h.reportDue
  timers n hn := htimers n hn
  distinct := hdistinct
  keys := h.keys
  early := h.early
  player := h.player
  defined := h.defined

theorem Sound.arm (h : Sound L) {name : TimerName} (delayMs : Millis) (hname : Belongs L name) :
    Sound (L.arm name delayMs) := by
  obtain ⟨out, -, heq⟩ := arm_eq L name delayMs
  rw [heq]
  refine h.arms (nodup_withTimer h.distinct name) ?_
  intro n hn
  rcases mem_withTimer.mp hn with hold | rfl
  · exact h.timers n hold
  · exact hname

theorem Sound.disarm (h : Sound L) (name : TimerName) : Sound (L.disarm name) := by
  obtain ⟨out, -, heq⟩ := disarm_eq L name
  rw [heq]
  exact h.arms (h.distinct.filter _) fun n hn => h.timers n (List.mem_filter.mp hn).1

/-! ## The end of an attempt -/

theorem left_invariant (h : L.undefined = false) (out : Batch) : Invariant (L.left out) := by
  constructor
  case toAsked =>
    constructor
    case toSound =>
      constructor
      case cleared => exact fun _ => ⟨rfl, rfl, rfl, rfl, rfl, rfl, rfl, rfl, rfl, rfl⟩
      case orphaned =>
        intro p hp
        obtain ⟨q, -, rfl⟩ := Option.map_eq_some_iff.mp hp
        exact iff_of_true rfl rfl
      case defined => exact h
      all_goals simp [left, OpFits]
    case asking => simp [left]
    case polling => simp [left]
  case cycle => simp [left]
  case behind => simp [left]
  case alive => simp [left]

theorem Sound.stopped (h : Sound L) (out : Batch) (hrole : L.role = .host)
    (hstage : L.stage = .settled) (hpending : L.pending = none) :
    Sound { L with
      roomEnded := true
      reporting := false
      reportDue := false
      armed := L.armed.filter (· ≠ .hostReport)
      out := out } where
  cleared hlobby := absurd (hstage.symm.trans hlobby) (by decide)
  orphaned := h.orphaned
  fits := h.fits
  role := h.role
  token := h.token
  reports hfalse := absurd hfalse Bool.false_ne_true
  reported p hp := absurd (hpending.symm.trans hp) (by simp)
  ended _ := ⟨hstage, hrole⟩
  polls := h.polls
  issues := h.issues
  registers := h.registers
  requestDue := h.requestDue
  reportDue hfalse := absurd hfalse Bool.false_ne_true
  timers n hn := by
    obtain ⟨hold, hother⟩ := List.mem_filter.mp hn
    have hbelongs := h.timers n hold
    cases n with
    | hostReport => simp at hother
    | _ => exact hbelongs
  distinct := h.distinct.filter _
  keys := h.keys
  early := h.early
  player := h.player
  defined := h.defined

theorem RoomEnded.invariant (k : RoomEnded L L') (h : Sound L) (hrole : L.role = .host)
    (hstage : L.stage = .settled) (hpending : L.pending = none) (hended : L.roomEnded = false) :
    Invariant L' := by
  cases k with
  | known hknown => exact absurd (hended.symm.trans hknown) (by decide)
  | left out _ _ => exact left_invariant h.defined out
  | stopped out _ hactive _ =>
    constructor
    case toAsked =>
      constructor
      case toSound => exact h.stopped out hrole hstage hpending
      case asking =>
        rintro (hissuing | hregistering)
        · exact absurd (hstage.symm.trans hissuing) (by decide)
        · exact absurd (hstage.symm.trans hregistering) (by decide)
      case polling => exact fun hpolling => absurd (hstage.symm.trans hpolling) (by decide)
    case cycle => exact fun hfalse => absurd hfalse Bool.false_ne_true
    case behind => exact fun hfalse => absurd hfalse Bool.false_ne_true
    case alive => exact fun _ => hactive

theorem Failed.invariant (k : Failed L L') (hundef : L.undefined = false)
    (h : L.role = .host → L.stage = .settled → Sound L ∧ L.pending = none ∧ L.roomEnded = false) :
    Invariant L' := by
  cases k with
  | left out _ _ => exact left_invariant hundef out
  | room _ hrole hstage hroom =>
    obtain ⟨hsound, hpending, hended⟩ := h hrole hstage
    exact hroom.invariant hsound hrole hstage hpending hended

/-! ## Requests -/

theorem Sound.unpend (h : Sound L) : Sound { L with pending := none } where
  cleared hlobby := by
    obtain ⟨c1, c2, c3, c4, c5, c6, c7, c8, c9, c10⟩ := h.cleared hlobby
    exact ⟨c1, c2, c3, c4, c5, c6, c7, c8, c9, c10⟩
  orphaned p hp := by cases hp
  fits p hp := by cases hp
  role := h.role
  token := h.token
  reports := h.reports
  reported p hp := by cases hp
  ended := h.ended
  polls := h.polls
  issues := h.issues
  registers := h.registers
  requestDue := h.requestDue
  reportDue := h.reportDue
  timers n hn := h.timers n hn
  distinct := h.distinct
  keys := h.keys
  early := h.early
  player := h.player
  defined := h.defined

theorem Sound.submitted {op : Op} {departed : List U32} {out : Batch} (h : Sound L)
    (hstage : L.stage ≠ .lobby) (hfits : OpFits L.requestOp L.stage op)
    (hreport : op = .hostReport → L.reporting = true) :
    Sound { L with pending := some { op := op, departed := departed }, out := out } where
  cleared hlobby := absurd hlobby hstage
  orphaned p hp := by
    obtain rfl := Option.some.inj hp
    exact iff_of_false Bool.false_ne_true hstage
  fits p hp := by
    obtain rfl := Option.some.inj hp
    exact hfits
  role := h.role
  token := h.token
  reports := h.reports
  reported p hp _ hop := by
    obtain rfl := Option.some.inj hp
    exact hreport hop
  ended := h.ended
  polls := h.polls
  issues := h.issues
  registers := h.registers
  requestDue := h.requestDue
  reportDue := h.reportDue
  timers n hn := h.timers n hn
  distinct := h.distinct
  keys := h.keys
  early := h.early
  player := h.player
  defined := h.defined

theorem Sound.dues {requestDue reportDue : Bool} {tries : ℕ} {body : Body} (h : Sound L)
    (hstage : L.stage ≠ .lobby)
    (hrequest : requestDue = true → L.stage = .issuing ∨ L.stage = .registering)
    (hreport : reportDue = true → L.reporting = true) :
    Sound
      { L with
        requestDue := requestDue
        reportDue := reportDue
        tries := tries
        requestBody := body } where
  cleared hlobby := absurd hlobby hstage
  orphaned := h.orphaned
  fits := h.fits
  role := h.role
  token := h.token
  reports := h.reports
  reported := h.reported
  ended := h.ended
  polls := h.polls
  issues := h.issues
  registers := h.registers
  requestDue := hrequest
  reportDue := hreport
  timers n hn := h.timers n hn
  distinct := h.distinct
  keys := h.keys
  early := h.early
  player := h.player
  defined := h.defined

/-- Before the work that is due is done: no request is under way. -/
structure Idle (L : Lobby) : Prop extends Sound L where
  free : L.pending = none
  resting : L.stage = .issuing ∨ L.stage = .registering →
    L.tries < maxTries ∧ (L.requestDue = true ↔ .retry ∉ L.armed)
  polling : L.stage = .polling → .deadline ∈ L.armed ∧ .poll ∈ L.armed
  cycle : L.reporting = true → .hostReport ∈ L.armed ∨ L.reportDue = true
  alive : L.roomEnded = true → 0 < L.activePairs

theorem Sound.reportStages (h : Sound L) (hreporting : L.reporting = true) :
    L.stage ≠ .lobby ∧ L.stage ≠ .issuing ∧ L.stage ≠ .polling := by
  obtain ⟨-, -, hstages⟩ := h.reports hreporting
  rcases hstages with hstage | hstage | hstage <;> rw [hstage] <;> decide

theorem Reported.invariant {token : PeerToken} (k : Reported L token L') (h : Asked L)
    (hreporting : L.reporting = true) :
    Invariant L' := by
  obtain ⟨hrole, hended, -⟩ := h.reports hreporting
  obtain ⟨hlobby, hissuing, hpolling⟩ := h.reportStages hreporting
  cases k with
  | deferred hpending =>
    constructor
    case toAsked =>
      constructor
      case toSound => exact h.toSound.dues hlobby h.requestDue fun _ => hreporting
      case asking =>
        intro hstage
        cases h.asking hstage with
        | sent p hp hop hdue hretry htries => exact .sent p hp hop hdue hretry htries
        | resting hp hdue hretry htries => exact .resting hp hdue hretry htries
        | deferred p hp hop hdue hretry htries => exact .deferred p hp hop hdue hretry htries
      case polling => exact fun hstage => absurd hstage hpolling
    case cycle => exact fun _ => .inr rfl
    case behind => exact fun _ => hpending
    case alive => exact fun htrue => absurd (hended.symm.trans htrue) (by decide)
  | refused _ hnone _ hfailed =>
    apply hfailed.invariant h.defined
    exact fun _ _ => ⟨h.toSound.dues hlobby h.requestDue (by simp), hnone, hended⟩
  | sent body out hnone _ _ _ =>
    have hfits : OpFits L.requestOp L.stage .hostReport := by
      rcases (h.reports hreporting).2.2 with hstage | hstage | hstage <;> rw [hstage]
        <;> simp [OpFits]
    have hdues : Sound { L with reportDue := false } := h.toSound.dues hlobby h.requestDue (by simp)
    have hsubmitted := @Sound.submitted _ _ L.departed L.out hdues hlobby hfits fun _ => hreporting
    constructor
    case toAsked =>
      constructor
      case toSound =>
        apply hsubmitted.arms
        · exact nodup_withTimer (h.distinct.filter _) _
        · intro n hn
          rcases mem_withTimer.mp hn with hold | rfl
          · exact h.timers n (List.mem_filter.mp hold).1
          · exact hreporting
      case asking =>
        intro hstage
        cases h.asking hstage with
        | sent p hp _ _ _ _ => exact absurd (hnone.symm.trans hp) (by simp)
        | deferred p hp _ _ _ _ => exact absurd (hnone.symm.trans hp) (by simp)
        | resting _ hdue hretry htries =>
          refine .resting ?_ hdue
            (mem_withTimer.mpr (.inl (List.mem_filter.mpr ⟨hretry, by simp⟩))) htries
          rintro p hp
          rw [← Option.some.inj hp]
      case polling => exact fun hstage => absurd hstage hpolling
    case cycle => exact fun _ => .inl (mem_withTimer.mpr (.inr rfl))
    case behind => exact fun hfalse => absurd hfalse Bool.false_ne_true
    case alive => exact fun htrue => absurd (hended.symm.trans htrue) (by decide)

theorem sendHostReport_invariant (h : Asked L) (hreporting : L.reporting = true) :
    Invariant L.sendHostReport := by
  obtain ⟨hlobby, hissuing, -⟩ := h.reportStages hreporting
  obtain ⟨token, htoken⟩ := Option.isSome_iff_exists.mp (h.token hlobby hissuing)
  exact (sendHostReport_cases htoken).invariant h hreporting

theorem sendOrDeferRequest_invariant (h : Sound L)
    (hstage : L.stage = .issuing ∨ L.stage = .registering) (hretry : .retry ∉ L.armed)
    (htries : L.tries < maxTries)
    (hbehind : ∀ p, L.pending = some p → p.op = .hostReport)
    (hcycle : L.reporting = true → .hostReport ∈ L.armed ∨ L.reportDue = true) :
    Invariant L.sendOrDeferRequest := by
  have hlobby : L.stage ≠ .lobby := by
    rcases hstage with hstage | hstage <;> rw [hstage] <;> decide
  have hpolling : L.stage ≠ .polling := by
    rcases hstage with hstage | hstage <;> rw [hstage] <;> decide
  have hopen : L.roomEnded = true → 0 < L.activePairs := by
    intro hended
    rw [(h.ended hended).1] at hstage
    simp at hstage
  unfold sendOrDeferRequest
  by_cases hpending : L.pending.isSome = true
  · rw [if_pos hpending]
    obtain ⟨p, hp⟩ := Option.isSome_iff_exists.mp hpending
    have hsound : Sound { L with requestDue := true } := h.dues hlobby (fun _ => hstage) h.reportDue
    constructor
    case toAsked =>
      exact ⟨hsound, fun _ => .deferred p hp (hbehind p hp) rfl hretry htries,
        fun hstage => absurd hstage hpolling⟩
    case cycle => exact hcycle
    case behind => exact fun _ => hpending
    case alive => exact hopen
  · rw [if_neg hpending]
    have hfits : OpFits L.requestOp L.stage L.requestOp := by
      rcases hstage with hstage | hstage <;> rw [hstage] <;> simp [OpFits]
    have hown : L.requestOp ≠ .hostReport := by
      rcases hstage with hstage | hstage
      · rcases h.issues hstage with hop | hop <;> rw [hop] <;> decide
      · rw [h.registers hstage]
        decide
    have hdues : Sound { L with requestDue := false, tries := L.tries + 1 } :=
      h.dues hlobby (by simp) h.reportDue
    have hsound :=
      @Sound.submitted _ _ [] { L.out with request := some ⟨L.requestOp, L.requestBody, L.peerId⟩ }
      hdues hlobby hfits fun hreport => absurd hreport hown
    constructor
    case toAsked =>
      exact ⟨hsound, fun _ => .sent _ rfl rfl rfl hretry htries,
        fun hstage => absurd hstage hpolling⟩
    case cycle => exact hcycle
    case behind => exact fun _ => rfl
    case alive => exact hopen

theorem Idle.invariant (h : Idle L) (hrequest : L.requestDue = false)
    (hreport : L.reportDue = false) : Invariant L where
  toAsked := {
    toSound := h.toSound
    asking := fun hstage => by
      obtain ⟨htries, hdue⟩ := h.resting hstage
      have hretry : .retry ∈ L.armed := by
        by_contra hnot
        exact absurd (hrequest.symm.trans (hdue.mpr hnot)) (by decide)
      exact .resting (fun p hp => absurd (h.free.symm.trans hp) (by simp)) hrequest hretry htries
    polling := fun hstage => ⟨(h.polling hstage).1, .resting h.free (h.polling hstage).2⟩ }
  cycle := h.cycle
  behind hdue := absurd (hreport.symm.trans hdue) (by decide)
  alive := h.alive

theorem runDue_invariant (h : Idle L) : Invariant L.runDue := by
  unfold runDue
  have hfree : ¬L.pending.isSome = true := by
    rw [h.free]
    exact Bool.false_ne_true
  by_cases hlobby : L.stage = .lobby
  · rw [if_pos (.inr (by simp [inLobby, hlobby]))]
    exact h.invariant (h.cleared hlobby).requestDue (h.cleared hlobby).reportDue
  · rw [if_neg (by simp [inLobby, hlobby, h.free])]
    by_cases hrequest : L.requestDue = true
    · rw [if_pos hrequest]
      have hstage := h.requestDue hrequest
      obtain ⟨htries, hdue⟩ := h.resting hstage
      apply sendOrDeferRequest_invariant h.toSound hstage (hdue.mp hrequest) htries
      · exact fun p hp => absurd (h.free.symm.trans hp) (by simp)
      · exact h.cycle
    · rw [if_neg hrequest]
      have hrested : L.requestDue = false := by simpa using hrequest
      by_cases hreport : L.reportDue = true ∧ L.reporting = true
      · rw [if_pos hreport]
        refine sendHostReport_invariant ⟨h.toSound, ?_, ?_⟩ hreport.2
        · intro hstage
          obtain ⟨htries, hdue⟩ := h.resting hstage
          have hretry : .retry ∈ L.armed := by
            by_contra hnot
            exact hrequest (hdue.mpr hnot)
          exact .resting (fun p hp => absurd (h.free.symm.trans hp) (by simp)) hrested hretry htries
        · exact fun hstage => ⟨(h.polling hstage).1, .resting h.free (h.polling hstage).2⟩
      · rw [if_neg hreport]
        apply h.invariant hrested
        by_contra hdue
        have hdue : L.reportDue = true := by simpa using hdue
        exact hreport ⟨hdue, h.reportDue hdue⟩

/-- Where every request waits for what it should, no work is due that could be done. -/
theorem runDue_settled (h : Invariant L) : L.runDue = L := by
  unfold runDue
  by_cases hwait : L.pending.isSome = true ∨ L.inLobby = true
  · exact if_pos hwait
  · rw [if_neg hwait]
    have hnone : L.pending = none := by simpa using fun hsome => hwait (.inl hsome)
    have hrequest : ¬L.requestDue = true := by
      intro hdue
      cases h.asking (h.requestDue hdue) with
      | sent p hp _ _ _ _ => exact absurd (hnone.symm.trans hp) (by simp)
      | resting _ hrested _ _ => exact absurd (hrested.symm.trans hdue) (by decide)
      | deferred p hp _ _ _ _ => exact absurd (hnone.symm.trans hp) (by simp)
    have hreport : ¬(L.reportDue = true ∧ L.reporting = true) := by
      rintro ⟨hdue, -⟩
      exact hwait (.inl (h.behind hdue))
    rw [if_neg hrequest, if_neg hreport]

end Sangtachi.Lobby
