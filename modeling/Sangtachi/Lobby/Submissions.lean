import Sangtachi.Lobby.Waiting

/-! # The requests of the lobby

One request at a time. What each helper of the lobby does to the request under way and to the step
whose request it is, and from that the ledger of a whole run: what was submitted, what was answered
or dropped, and how often each step asked. -/
namespace Sangtachi.Lobby

open Sangtachi.BigEndian Sangtachi.Packet Sangtachi.Peer Sangtachi.Tunnel

variable {L L' M : Lobby} {io : LobbyIo} {h : List Entry}

/-- The stages in which the request of a step is repeated. -/
def Stepping (L : Lobby) : Prop := L.stage = .issuing ∨ L.stage = .registering

instance instDecidableStepping (L : Lobby) : Decidable L.Stepping :=
  inferInstanceAs (Decidable (_ ∨ _))

def underWay (L : Lobby) : Option Op := L.pending.map (·.op)

def stepRequest (L : Lobby) : SubmitRequest := ⟨L.requestOp, L.requestBody, L.peerId⟩

/-! ## What a helper does -/

/-- Where a step is under way it is the one from before, with its request; `n` of its submissions
are new. -/
def SameStep (L L' : Lobby) (n : ℕ) : Prop :=
  L'.Stepping → L'.stage = L.stage ∧ L'.stepRequest = L.stepRequest ∧ L'.tries = L.tries + n

structure Kept (L L' : Lobby) : Prop where
  request : L'.out.request = L.out.request
  underWay : L'.underWay = L.underWay
  step : SameStep L L' 0

theorem Kept.refl (L : Lobby) : Kept L L := ⟨rfl, rfl, fun _ => ⟨rfl, rfl, rfl⟩⟩

theorem SameStep.stepping {n : ℕ} (k : SameStep L L' n) (h : L'.Stepping) : L.Stepping := by
  unfold Stepping at h ⊢
  rwa [(k h).1] at h

theorem SameStep.trans {m n : ℕ} (h : SameStep L M m) (k : SameStep M L' n) :
    SameStep L L' (m + n) := by
  intro hstep
  obtain ⟨hstage, hrequest, htries⟩ := k hstep
  obtain ⟨hstage', hrequest', htries'⟩ := h (k.stepping hstep)
  exact ⟨hstage.trans hstage', hrequest.trans hrequest', by omega⟩

theorem Kept.trans (h : Kept L M) (k : Kept M L') : Kept L L' where
  request := k.request.trans h.request
  underWay := k.underWay.trans h.underWay
  step := h.step.trans k.step

theorem Kept.when {c : Prop} [Decidable c] (h : Kept L M) (k : Kept L L') :
    Kept L (if c then M else L') := by
  split_ifs
  · exact h
  · exact k

theorem Says.kept (h : Says L L') : Kept L L' := by
  obtain ⟨out, hquiet, rfl⟩ := h
  exact ⟨hquiet.request, rfl, fun _ => ⟨rfl, rfl, rfl⟩⟩

theorem push_kept (L : Lobby) {a : LobbyAction} (ha : sessionsOf [a] = []) : Kept L (L.push a) :=
  ((Says.refl L).push ha).kept

theorem arm_kept (L : Lobby) (name : TimerName) (delayMs : Millis) :
    Kept L (L.arm name delayMs) := by
  obtain ⟨out, hquiet, heq⟩ := arm_eq L name delayMs
  rw [heq]
  exact ⟨hquiet.request, rfl, fun _ => ⟨rfl, rfl, rfl⟩⟩

/-- The request under way stays under way when its attempt ends. -/
theorem left_kept (L : Lobby) {out : Batch} (hquiet : Quiet L.out out) : Kept L (L.left out) where
  request := hquiet.request
  underWay := by
    unfold underWay left
    rw [Option.map_map]
    rfl
  step := nofun

theorem unfinished_kept (L : Lobby) (result reason : String) (leaveRoom : Bool) :
    Kept L ((L.recordUnfinished result).endAttempt reason leaveRoom) := by
  obtain ⟨out, hquiet, heq⟩ := unfinished_eq L result reason leaveRoom
  rw [heq]
  exact left_kept L hquiet

theorem RoomEnded.kept (k : RoomEnded L L') : Kept L L' := by
  cases k with
  | known _ => exact .refl L
  | stopped out _ _ hquiet => exact ⟨hquiet.request, rfl, fun _ => ⟨rfl, rfl, rfl⟩⟩
  | left out _ hquiet => exact left_kept L hquiet

theorem Failed.kept (k : Failed L L') : Kept L L' := by
  cases k with
  | room _ _ _ hroom => exact hroom.kept
  | left out _ hquiet => exact left_kept L hquiet

theorem fail_kept (L : Lobby) (code : FailCode) : Kept L (L.fail code) := (fail_cases L code).kept

theorem openPair_kept (L : Lobby) (peer : PeerView) (setupBaseMs : Millis) :
    Kept L (L.openPair peer setupBaseMs) := by
  obtain ⟨out, hrequest, -, heq⟩ := openPair_eq L peer setupBaseMs
  rw [heq]
  exact ⟨hrequest, rfl, fun _ => ⟨rfl, rfl, rfl⟩⟩

theorem takeIssued_kept (L : Lobby) (issued : Issued) : Kept L (L.takeIssued io issued) := by
  obtain ⟨out, hquiet, heq⟩ := takeIssued_eq L io issued
  rw [heq]
  exact ⟨hquiet.request, rfl, nofun⟩

theorem takeRegistered_kept (L : Lobby) (registered : Registered) :
    Kept L (L.takeRegistered registered) := by
  obtain ⟨out, hquiet, heq⟩ := takeRegistered_eq L registered
  rw [heq]
  refine ⟨hquiet.request, rfl, ?_⟩
  unfold SameStep Stepping
  split_ifs <;> exact nofun

theorem HostPeerTaken.kept {peer : PeerView} (k : HostPeerTaken L peer L') : Kept L L' := by
  cases k with
  | waits out _ hquiet => exact ⟨hquiet.request, rfl, fun _ => ⟨rfl, rfl, rfl⟩⟩
  | opened out _ hquiet =>
    refine Kept.trans ?_ (openPair_kept _ _ _)
    refine ⟨hquiet.request, rfl, ?_⟩
    rintro (hstep | hstep)
    · exact absurd hstep nofun
    · exact absurd hstep nofun

theorem foldl_openListed_kept (peers : List PeerView) (L : Lobby) :
    Kept L (peers.foldl openListed L) := by
  induction peers generalizing L with
  | nil => exact .refl L
  | cons peer rest ih =>
    have hpeer : Kept L (openListed L peer) := by
      unfold openListed
      exact (openPair_kept _ _ _).when (.refl L)
    exact hpeer.trans (ih _)

theorem takeReport_kept (L : Lobby) (peers : List PeerView) (carried : List U32) :
    Kept L (L.takeReport io peers carried) := by
  obtain ⟨firstSeen, announced, out, hquiet, heq⟩ := takeReport_eq L io peers carried
  have hnoted : Kept L (L.noted peers carried firstSeen announced out) :=
    ⟨hquiet.request, rfl, fun _ => ⟨rfl, rfl, rfl⟩⟩
  rw [heq]
  exact (hnoted.trans (foldl_openListed_kept _ _)).when hnoted

/-- At most one request is submitted, and only where none is under way: that of the step, or a
report or a poll. -/
inductive Requests (L L' : Lobby) : Prop where
  | kept : Kept L L' → Requests L L'
  | other (r : SubmitRequest) : L.underWay = none → L'.out.request = some r →
    L'.underWay = some r.op →
      r.op = .hostReport ∨ r.op = .getPeers → SameStep L L' 0 → Requests L L'
  | asked : L.underWay = none → L.Stepping → L'.Stepping → L'.out.request = some L'.stepRequest →
      L'.underWay = some L'.requestOp → SameStep L L' 1 → Requests L L'

theorem Kept.requests (h : Kept L M) (k : Requests M L') : Requests L L' := by
  cases k with
  | kept k => exact .kept (h.trans k)
  | other r hfree hrequest hway hop hstep =>
    exact .other r (h.underWay ▸ hfree) hrequest hway hop (by simpa using h.step.trans hstep)
  | asked hfree hstepping hstepping' hrequest hway hstep =>
    exact .asked (h.underWay ▸ hfree) (h.step.stepping hstepping) hstepping' hrequest hway
      (by simpa using h.step.trans hstep)

theorem underWay_none : L.underWay = none ↔ L.pending = none := Option.map_eq_none_iff

theorem Reported.requests {token : PeerToken} (k : Reported L token L') : Requests L L' := by
  cases k with
  | deferred _ => exact .kept ⟨rfl, rfl, fun _ => ⟨rfl, rfl, rfl⟩⟩
  | refused _ _ _ hfailed =>
    have hundue : Kept L { L with reportDue := false } := ⟨rfl, rfl, fun _ => ⟨rfl, rfl, rfl⟩⟩
    exact .kept (hundue.trans hfailed.kept)
  | sent body out hnone _ hrequest _ =>
    exact .other _ (underWay_none.mpr hnone) hrequest rfl (.inl rfl) fun _ => ⟨rfl, rfl, rfl⟩

theorem sendHostReport_requests (h : Sound L) (hreporting : L.reporting = true) :
    Requests L L.sendHostReport := by
  obtain ⟨hlobby, hissuing, -⟩ := h.reportStages hreporting
  obtain ⟨token, htoken⟩ := Option.isSome_iff_exists.mp (h.token hlobby hissuing)
  exact (sendHostReport_cases htoken).requests

theorem sendOrDeferRequest_requests (hstep : L.Stepping) : Requests L L.sendOrDeferRequest := by
  unfold sendOrDeferRequest
  by_cases hpending : L.pending.isSome = true
  · rw [if_pos hpending]
    exact .kept ⟨rfl, rfl, fun _ => ⟨rfl, rfl, rfl⟩⟩
  · rw [if_neg hpending]
    exact .asked (underWay_none.mpr (by simpa using hpending)) hstep hstep rfl rfl fun _ =>
      ⟨rfl, rfl, rfl⟩

theorem runDue_requests (h : Sound L) : Requests L L.runDue := by
  unfold runDue
  split_ifs with hwait hrequest hreport
  · exact .kept (.refl L)
  · exact sendOrDeferRequest_requests (h.requestDue hrequest)
  · exact sendHostReport_requests h hreport.2
  · exact .kept (.refl L)

/-! ## Events -/

/-- A step begins, and has not asked. -/
structure Fresh (L M : Lobby) : Prop where
  before : ¬L.Stepping
  stepping : M.Stepping
  tries : M.tries = 0
  request : M.out.request = L.out.request
  underWay : M.underWay = L.underWay

inductive Turned (L L' : Lobby) : Prop where
  | goes : Requests L L' → Turned L L'
  | begins (M : Lobby) : Fresh L M → Requests M L' → Turned L L'

theorem Kept.turned (h : Kept L L') : Turned L L' := .goes (.kept h)

/-- A failure outside a room that is set up ends the attempt, whatever the stage was by then. -/
theorem Failed.ends (k : Failed M L') (hearly : M.stage ≠ .settled)
    (hrequest : M.out.request = L.out.request) (hway : M.underWay = L.underWay) :
    Kept L L' := by
  refine ⟨k.kept.request.trans hrequest, k.kept.underWay.trans hway, ?_⟩
  cases k with
  | room _ _ hstage _ => exact absurd hstage hearly
  | left out _ _ => exact nofun

theorem startAttempt_turned (role : LobbyRole) (room : Bytes) (hlobby : L.stage = .lobby) :
    Turned L (L.startAttempt io role room) := by
  have hbefore : ¬L.Stepping := by
    unfold Stepping
    rw [hlobby]
    decide
  have hstarted : (({ L with role := role, stage := .issuing } : Lobby).log .info "attempt.start"
      [⟨"role", ascii role.token⟩]).stage = .issuing ∧
      (({ L with role := role, stage := .issuing } : Lobby).log .info "attempt.start"
        [⟨"role", ascii role.token⟩]).out.request = L.out.request ∧
      (({ L with role := role, stage := .issuing } : Lobby).log .info "attempt.start"
        [⟨"role", ascii role.token⟩]).underWay = L.underWay := ⟨rfl, rfl, rfl⟩
  unfold startAttempt
  dsimp only
  generalize ({ L with role := role, stage := .issuing } : Lobby).log .info "attempt.start"
    [⟨"role", ascii role.token⟩] = M at hstarted ⊢
  obtain ⟨hstage, hrequest, hway⟩ := hstarted
  have hearly : M.stage ≠ .settled := by rw [hstage]; decide
  cases io.nonce with
  | none => exact ((fail_cases M _).ends hearly hrequest hway).turned
  | some nonce =>
    dsimp only
    generalize (if role = .host then (Op.createRoom, createRoomBody nonce M.name)
      else (Op.joinRoom, joinRoomBody room nonce M.name)) = request
    obtain ⟨op, body⟩ := request
    cases body with
    | none =>
      exact (Failed.ends (M := { M with requestOp := op })
        (fail_cases _ _) hearly hrequest hway).turned
    | some body =>
      have hfresh : Fresh L { M with requestOp := op, requestBody := body, tries := 0 } :=
        ⟨hbefore, .inl hstage, rfl, hrequest, hway⟩
      exact .begins _ hfresh (sendOrDeferRequest_requests hfresh.stepping)

theorem reject_kept (L : Lobby) (reason : String) (kind : CommandKind) :
    Kept L (L.reject reason kind) :=
  (((Says.refl L).push rfl).push rfl).kept

theorem onCommand_turned (command : LobbyCommand) : Turned L (L.onCommand io command) := by
  have hstart : Turned L (L.onStartCommand io command) := by
    unfold onStartCommand
    split_ifs with hnot
    · exact (reject_kept _ _ _).turned
    · exact (reject_kept _ _ _).turned
    · exact (reject_kept _ _ _).turned
    · exact startAttempt_turned _ _ (by simpa [inLobby] using hnot)
    · exact (reject_kept _ _ _).turned
    · exact (reject_kept _ _ _).turned
    · exact startAttempt_turned _ _ (by simpa [inLobby] using hnot)
  have hguide : ∀ lines : List Bytes, Kept L (L.pushAll (lines.map .guideLine)) :=
    fun lines => ((Says.refl L).guide lines).kept
  unfold onCommand
  cases command.kind with
  | help => exact ((reject_kept _ _ _).when ((hguide _).when (hguide _))).turned
  | leave =>
    exact ((reject_kept _ _ _).when ((reject_kept _ _ _).when (unfinished_kept _ _ _ _))).turned
  | name =>
    have hnamed : Kept L { L with name := command.argument } := ⟨rfl, rfl, fun _ => ⟨rfl, rfl, rfl⟩⟩
    dsimp only
    unfold onName
    split_ifs
    · exact (reject_kept _ _ _).turned
    · exact (reject_kept _ _ _).turned
    · exact (reject_kept _ _ _).turned
    · exact (reject_kept _ _ _).turned
    · exact (hnamed.trans (((Says.refl _).push rfl).push rfl).kept).turned
  | host => exact hstart
  | join => exact hstart

theorem retryOrFail_kept (L : Lobby) : Kept L L.retryOrFail := by
  unfold retryOrFail
  exact (arm_kept _ _ _).when (fail_kept _ _)

theorem onIssued_kept (reply : Reply Issued) : Kept L (L.onIssued io reply) := by
  unfold onIssued
  refine (retryOrFail_kept _).when ?_
  split
  · exact takeIssued_kept _ _
  · exact fail_kept _ _

theorem onRegistered_kept (reply : Reply Registered) : Kept L (L.onRegistered reply) := by
  unfold onRegistered
  refine (retryOrFail_kept _).when ?_
  split
  · exact takeRegistered_kept _ _
  · exact fail_kept _ _

theorem onPeers_kept (reply : Reply Peers) : Kept L (L.onPeers reply) := by
  unfold onPeers
  refine (arm_kept _ _ _).when ?_
  split
  · exact (takeHostPeer_cases _ _).kept
  · exact fail_kept _ _

theorem onHostReport_kept (reply : Reply HostReport) (pending : Pending) :
    Kept L (L.onHostReport io reply pending) := by
  unfold onHostReport
  refine (fail_kept _ _).when ?_
  split
  · exact takeReport_kept _ _ _
  · exact .refl _

theorem takeReply_kept {pending : Pending} (op : Op) (reply : ReplyBody) :
    Kept L (L.takeReply io op pending reply) := by
  have hlogged : ∀ outcome failure, Kept L (L.resultLine op outcome failure) :=
    fun _ _ => ((Says.refl L).push rfl).kept
  cases reply with
  | issued r => exact (hlogged _ _).trans (onIssued_kept r)
  | registered r => exact (hlogged _ _).trans (onRegistered_kept r)
  | peers r => exact (hlogged _ _).trans (onPeers_kept (asPlayerReply r))
  | hostReport r => exact (hlogged _ _).trans (onHostReport_kept r pending)

theorem Handled.toSound (h : Handled L) : Sound L := by
  rcases h with h | h
  · exact h.toSound
  · exact h.toSound

theorem onReply_requests (h : Invariant L) (reply : ControlReply) :
    Requests { L with pending := none } (L.onReply io reply) := by
  unfold onReply
  cases hpending : L.pending with
  | none =>
    have hsame : { L with pending := none } = L := by rw [← hpending]
    rw [hsame]
    exact .kept (push_kept L rfl)
  | some p =>
    have hlogged : ∀ level event fields,
      Kept { L with pending := none } (log { L with pending := none } level event fields) :=
      fun _ _ _ => push_kept _ rfl
    have hunpend : ∀ out, Sound { L with pending := none, out := out } :=
      fun out => h.toSound.unpend.same (sameStage_out _ out)
    dsimp only
    by_cases hmatch : p.op ≠ reply.op ∨ reply.reply.index ≠ replyIndex p.op
    · rw [if_pos hmatch]
      split_ifs with hlive
      · have hlobby : L.stage ≠ .lobby :=
          fun hlobby => by simp [(h.orphaned p hpending).mpr hlobby] at hlive
        have hfailed := unanswered_invariant h hpending hlobby
          { L.out with actions := L.out.actions ++ [.logLine .warn "control.reply_mismatch"
            [⟨"op", ascii (opName p.op)⟩]] }
          .controlPlaneExchangeFailed
        exact ((hlogged _ _ _).trans (fail_kept _ _)).requests (runDue_requests hfailed.toSound)
      · exact (hlogged _ _ _).requests (runDue_requests (hunpend _))
    · rw [if_neg hmatch]
      by_cases horphan : p.orphaned = true
      · rw [if_pos horphan]
        exact .kept (hlogged _ _ _)
      · rw [if_neg horphan]
        have hlobby : L.stage ≠ .lobby := fun hlobby => horphan ((h.orphaned p hpending).mpr hlobby)
        have hindex : reply.reply.index = replyIndex p.op := not_not.mp (not_or.mp hmatch).2
        have htaken : Kept { L with pending := none }
          (takeReply { L with pending := none } io reply.op p reply.reply) :=
          takeReply_kept _ _
        exact htaken.requests
          (runDue_requests (takeReply_handled h hpending hlobby hindex reply.op).toSound)

theorem onSubmitDropped_kept (L : Lobby) : Kept { L with pending := none } L.onSubmitDropped := by
  unfold onSubmitDropped
  cases hpending : L.pending with
  | none =>
    have hsame : { L with pending := none } = L := by rw [← hpending]
    rw [hsame]
    exact .refl L
  | some p => exact (fail_kept _ _).when (.refl _)

theorem onStunDone_turned (h : Invariant L) (ok : Bool) (mappings : List StunMapping) :
    Turned L (L.onStunDone io ok mappings) := by
  unfold onStunDone
  by_cases hstage : L.stage = .stun
  · rw [if_neg (not_not_intro hstage)]
    obtain ⟨token, htoken⟩ := Option.isSome_iff_exists.mp
      (h.token (by rw [hstage]; decide) (by rw [hstage]; decide))
    have hbefore : ¬L.Stepping := by
      unfold Stepping
      rw [hstage]
      decide
    have hfailed : ∀ code, Turned L (fail { L with stage := .registering } code) := by
      intro code
      have hkept : Kept L (fail { L with stage := .registering } code) := by
        refine (fail_cases { L with stage := .registering } code).ends ?_ rfl rfl
        exact fun hsettled : LobbyStage.registering = .settled => absurd hsettled (by decide)
      exact hkept.turned
    dsimp only
    split_ifs
    · exact hfailed _
    · rw [withToken_some (L := { L with stage := .registering }) htoken]
      cases registerCandidateBody L.roomId L.peerId token
        (io.collect (mappings.map (·.mapped))) with
      | none => exact hfailed _
      | some body =>
        have hfresh :
          Fresh L
            { L with
              stage := .registering
              requestOp := .registerCandidate
              requestBody := body
              tries := 0 } :=
          ⟨hbefore, .inr rfl, rfl, rfl, rfl⟩
        exact .begins _ hfresh (sendOrDeferRequest_requests hfresh.stepping)
  · rw [if_pos hstage]
    exact (Kept.refl L).turned

theorem Closed.requests {peerId : U32} (k : Closed L peerId L') : Requests L L' := by
  have hclosed : ∀ {out : Batch}, Quiet L.out out → Kept L (L.closed peerId out) :=
    fun hquiet => ⟨hquiet.request, rfl, fun _ => ⟨rfl, rfl, rfl⟩⟩
  cases k with
  | player out _ hquiet => exact .kept (left_kept L hquiet)
  | reported out token _ _ _ _ hquiet hreported =>
    exact (hclosed hquiet).requests hreported.requests
  | stays out _ _ hquiet _ => exact .kept (hclosed hquiet)
  | ended out _ _ hquiet => exact .kept (left_kept L hquiet)

theorem Invariant.reports_token (h : Invariant L) (hreporting : L.reporting = true) :
    L.roomEnded = false ∧ L.token.isSome = true := by
  obtain ⟨hlobby, hissuing, -⟩ := h.reportStages hreporting
  exact ⟨(h.reports hreporting).2.1, h.token hlobby hissuing⟩

theorem closePair_requests
    (hreports : L.reporting = true → L.roomEnded = false ∧ L.token.isSome = true) (peerId : U32)
    (failure : Option FailCode) : Requests L (L.closePair peerId failure) := by
  cases hpair : L.findPair peerId with
  | none =>
    unfold closePair
    rw [hpair]
    exact .kept (.refl L)
  | some pair =>
    by_cases hactive : pair.active = true
    · exact (closePair_cases hpair hactive failure hreports).requests
    · unfold closePair
      rw [hpair]
      dsimp only
      rw [if_pos (by simpa using hactive)]
      exact .kept (.refl L)

theorem onSessionEvent_requests (h : Invariant L) (event : SessionEvent) :
    Requests L (L.onSessionEvent event) := by
  unfold onSessionEvent
  split_ifs
  · cases L.findPair event.peerId with
    | none => exact .kept (.refl L)
    | some pair => exact .kept ((push_kept L rfl).when (.refl L))
  · exact .kept (.refl L)
  · exact closePair_requests h.reports_token _ _
  · exact closePair_requests h.reports_token _ _

theorem onSessionOpenFailed_requests (h : Invariant L) (peerId : U32) :
    Requests L (L.onSessionOpenFailed peerId) := by
  unfold onSessionOpenFailed
  cases L.findPair peerId with
  | none => exact .kept (.refl L)
  | some pair =>
    dsimp only
    generalize hM : Lobby.push (Lobby.log L .error "session.failed" _) _ = M
    have hrecorded : Kept L (M.clearPairName peerId) ∧
        (M.reporting = true → M.roomEnded = false ∧ M.token.isSome = true) := by
      subst hM
      have hlogged :=
        ((Says.refl L).push
          (a := .logLine .error "session.failed" [⟨"peer_id", decimal peerId.toNat⟩,
        ⟨"code", ascii FailCode.controlPlaneExchangeFailed.token⟩]) rfl).push
        (a := .recordAttempt L.role (some peerId) FailCode.controlPlaneExchangeFailed.token) rfl
      exact ⟨hlogged.kept.trans ⟨rfl, rfl, fun _ => ⟨rfl, rfl, rfl⟩⟩, h.reports_token⟩
    split_ifs
    · exact .kept (.refl L)
    · exact hrecorded.1.requests (closePair_requests (L := M.clearPairName peerId) hrecorded.2 _ _)

theorem onTimer_requests (h : Invariant L) (name : TimerName) : Requests L (L.onTimer name) := by
  unfold onTimer
  by_cases hstray : (!ownsTimer name) = true ∨ name ∉ L.armed
  · rw [if_pos hstray]
    exact .kept (.refl L)
  · rw [if_neg hstray]
    have hbelongs := h.timers name (not_not.mp (not_or.mp hstray).2)
    have hsound := h.toSound.forgetArmed name
    have hforgot : Kept L (L.forgetArmed name) := ⟨rfl, rfl, fun _ => ⟨rfl, rfl, rfl⟩⟩
    refine hforgot.requests ?_
    dsimp only
    cases name with
    | retry =>
      dsimp only
      rw [if_pos
        (c := (L.forgetArmed .retry).stage = _ ∨ (L.forgetArmed .retry).stage = _) hbelongs]
      exact sendOrDeferRequest_requests hbelongs
    | poll =>
      have hstage : L.stage = .polling := hbelongs
      obtain ⟨token, htoken⟩ := Option.isSome_iff_exists.mp
        (h.token (by rw [hstage]; decide) (by rw [hstage]; decide))
      dsimp only
      unfold onPollTimer
      split_ifs with hfree
      · rw [withToken_some (L := L.forgetArmed .poll) htoken]
        cases getPeersBody (L.forgetArmed .poll).roomId (L.forgetArmed .poll).peerId token with
        | none => exact .kept (fail_kept _ _)
        | some body =>
          exact .other _ (underWay_none.mpr hfree.2) rfl rfl (.inr rfl) fun _ => ⟨rfl, rfl, rfl⟩
      · exact .kept (.refl _)
    | deadline => exact .kept ((fail_kept _ _).when (.refl _))
    | hostReport =>
      dsimp only
      rw [if_pos (c := (L.forgetArmed .hostReport).reporting = true) hbelongs]
      exact sendHostReport_requests hsound hbelongs
    | punch peerId => exact .kept (push_kept _ rfl)
    | stunRetry server => exact absurd hbelongs id
    | stunDeadline server => exact absurd hbelongs id
    | other name => exact absurd hbelongs id

/-- A reply answers the request under way, a drop takes it back. -/
def consumes : LobbyEvent → Bool
  | .reply _ | .submitDropped => true
  | _ => false

/-- The lobby as an event finds it, with nothing to be carried out and its request consumed. -/
def consumed (L : Lobby) (event : LobbyEvent) : Lobby :=
  if consumes event then { L with pending := none, out := {} } else { L with out := {} }

theorem step_turned (h : Invariant L) (io : LobbyIo) (event : LobbyEvent) :
    Turned (L.consumed event) (L.step io event) := by
  have hfresh : Invariant { L with out := {} } := h.same (sameStage_out L _)
  unfold step
  cases event with
  | start => exact (((Says.refl _).guide _).kept).turned
  | command c => exact onCommand_turned c
  | reply r => exact .goes (onReply_requests hfresh r)
  | submitDropped => exact (onSubmitDropped_kept { L with out := {} }).turned
  | stunDone ok mappings => exact onStunDone_turned hfresh ok mappings
  | timer name => exact .goes (onTimer_requests hfresh name)
  | session e => exact .goes (onSessionEvent_requests hfresh e)
  | sessionOpenFailed peerId => exact .goes (onSessionOpenFailed_requests hfresh peerId)
  | shutdown => exact (Kept.when (.refl _) (unfinished_kept _ _ _ _)).turned

/-! ## The ledger of a run -/

def submits (as : List LobbyAction) : List SubmitRequest :=
  as.filterMap fun
    | .submitRequest r => some r
    | _ => none

/-- A reply or a drop takes out the oldest request; what an event submits is added. -/
def ledgerEntry (rs : List SubmitRequest) (e : Entry) : List SubmitRequest :=
  (if consumes e.event then rs.drop 1 else rs) ++ submits e.after.actions

/-- The requests of a run that were neither answered nor dropped. -/
def ledger (h : List Entry) : List SubmitRequest := h.foldl ledgerEntry []

/-- The operations that a step repeats until they are answered. -/
def isStepOp : Op → Bool
  | .createRoom | .joinRoom | .registerCandidate => true
  | .getPeers | .hostReport => false

def Entry.begins (e : Entry) : Bool := !decide e.before.Stepping && decide e.after.Stepping

def stepEntry (rs : List SubmitRequest) (e : Entry) : List SubmitRequest :=
  (if e.begins then [] else rs) ++ (submits e.after.actions).filter fun r => isStepOp r.op

def stepRequests (h : List Entry) : List SubmitRequest := h.foldl stepEntry []

theorem submits_plain {as : List LobbyAction} (hplain : ∀ a ∈ as, isSubmit a = false) :
    submits as = [] := by
  apply List.filterMap_eq_nil_iff.mpr
  intro a ha
  have hquiet := hplain a ha
  cases a with
  | submitRequest r => exact absurd hquiet (by simp [isSubmit])
  | _ => rfl

theorem submits_actions (hplain : ∀ a ∈ L.out.actions, isSubmit a = false) :
    submits L.actions = L.out.request.toList := by
  unfold actions Batch.finish
  have happend : submits (L.out.actions ++ L.out.request.toList.map .submitRequest) =
      submits L.out.actions ++
        submits (L.out.request.toList.map .submitRequest) := List.filterMap_append
  rw [happend, submits_plain hplain]
  cases L.out.request with
  | none => rfl
  | some r => rfl

theorem consumed_request (L : Lobby) (event : LobbyEvent) :
    (L.consumed event).out.request = none := by
  unfold consumed
  split_ifs
  · rfl
  · rfl

/-- The operations are those of the request that the lobby takes to be under way, and no other. -/
def Balanced (L : Lobby) (ops : List Op) : Prop := ops = L.underWay.toList

theorem Balanced.consumed {ops : List Op} (h : Balanced L ops) (event : LobbyEvent) :
    Balanced (L.consumed event) (if consumes event then ops.drop 1 else ops) := by
  unfold Lobby.consumed
  split_ifs
  · unfold Balanced at h ⊢
    rw [h]
    cases L.underWay with
    | none => rfl
    | some op => rfl
  · exact h

theorem Requests.balanced {ops : List Op} (k : Requests L L') (h : Balanced L ops)
    (hfresh : L.out.request = none) :
    Balanced L' (ops ++ L'.out.request.toList.map (·.op)) := by
  unfold Balanced at h ⊢
  cases k with
  | kept k =>
    rw [k.request, hfresh, k.underWay, h]
    simp
  | other r hfree hrequest hway _ _ =>
    rw [h, hfree, hrequest, hway]
    rfl
  | asked hfree _ _ hrequest hway _ =>
    rw [h, hfree, hrequest, hway]
    rfl

theorem Turned.balanced {ops : List Op} (k : Turned L L') (h : Balanced L ops)
    (hfresh : L.out.request = none) :
    Balanced L' (ops ++ L'.out.request.toList.map (·.op)) := by
  cases k with
  | goes k => exact k.balanced h hfresh
  | begins M hM k =>
    have hbalanced : Balanced M ops := h.trans (congrArg Option.toList hM.underWay.symm)
    exact k.balanced hbalanced (hM.request.trans hfresh)

/-- The submissions of the last step are few and all the same; while the step is under way they are
its request, as often as it has tried. -/
structure Counted (L : Lobby) (rs : List SubmitRequest) : Prop where
  few : rs.length ≤ maxTries
  same : ∀ r ∈ rs, ∀ r' ∈ rs, r = r'
  current : L.Stepping → rs.length = L.tries ∧ ∀ r ∈ rs, r = L.stepRequest

theorem Invariant.stepping (h : Invariant L) (hstep : L.Stepping) :
    isStepOp L.requestOp = true ∧ L.tries ≤ maxTries := by
  constructor
  · rcases hstep with hstage | hstage
    · rcases h.issues hstage with hop | hop <;> rw [hop] <;> rfl
    · rw [h.registers hstage]
      rfl
  · cases h.asking hstep with
    | sent _ _ _ _ _ htries => exact htries
    | resting _ _ _ htries => exact htries.le
    | deferred _ _ _ _ _ htries => exact htries.le

theorem Counted.goesOn {rs : List SubmitRequest} (h : Counted L rs) (k : SameStep L L' 0) :
    Counted L' rs where
  few := h.few
  same := h.same
  current hstep := by
    obtain ⟨hlength, hrequests⟩ := h.current (k.stepping hstep)
    obtain ⟨-, hrequest, htries⟩ := k hstep
    exact ⟨by omega, fun r hr => (hrequests r hr).trans hrequest.symm⟩

theorem Counted.asks {rs : List SubmitRequest} (h : Counted L rs) (k : SameStep L L' 1)
    (hinv : Invariant L') (hstep : L'.Stepping) :
    Counted L' (rs ++ [L'.stepRequest]) := by
  obtain ⟨hlength, hrequests⟩ := h.current (k.stepping hstep)
  obtain ⟨-, hrequest, htries⟩ := k hstep
  have hall : ∀ r ∈ rs ++ [L'.stepRequest], r = L'.stepRequest := by
    intro r hr
    rcases List.mem_append.mp hr with hold | hnew
    · exact (hrequests r hold).trans hrequest.symm
    · exact List.mem_singleton.mp hnew
  have hcount : (rs ++ [L'.stepRequest]).length = L'.tries := by
    rw [List.length_append, List.length_singleton]
    omega
  constructor
  · rw [hcount]
    exact (hinv.stepping hstep).2
  · exact fun r hr r' hr' => (hall r hr).trans (hall r' hr').symm
  · exact fun _ => ⟨hcount, hall⟩

theorem Requests.counted {rs : List SubmitRequest} (k : Requests L L') (h : Counted L rs)
    (hinv : Invariant L') (hfresh : L.out.request = none) :
    Counted L' (rs ++ L'.out.request.toList.filter fun r => isStepOp r.op) := by
  cases k with
  | kept k =>
    rw [k.request, hfresh]
    simpa using h.goesOn k.step
  | other r _ hrequest _ hop hstep =>
    have hother : isStepOp r.op = false := by rcases hop with hop | hop <;> rw [hop] <;> rfl
    rw [hrequest]
    simpa [hother] using h.goesOn hstep
  | asked _ _ hstepping hrequest _ hstep =>
    have hown : isStepOp L'.stepRequest.op = true := (hinv.stepping hstepping).1
    rw [hrequest]
    simpa [hown] using h.asks hstep hinv hstepping

theorem Requests.stepping (k : Requests L L') (hstep : L'.Stepping) : L.Stepping := by
  cases k with
  | kept k => exact k.step.stepping hstep
  | other _ _ _ _ _ k => exact k.stepping hstep
  | asked _ hstepping _ _ _ _ => exact hstepping

theorem Fresh.counted (h : Fresh L M) : Counted M [] where
  few := Nat.zero_le _
  same := nofun
  current _ := ⟨h.tries.symm, nofun⟩

theorem Counted.consumed {rs : List SubmitRequest} (h : Counted L rs) (event : LobbyEvent) :
    Counted (L.consumed event) rs := by
  unfold Lobby.consumed
  split_ifs
  · exact ⟨h.few, h.same, h.current⟩
  · exact ⟨h.few, h.same, h.current⟩

theorem consumed_stepping (L : Lobby) (event : LobbyEvent) : (L.consumed event).Stepping ↔
      L.Stepping := by
  unfold consumed
  split_ifs
  · exact Iff.rfl
  · exact Iff.rfl

theorem Counted.step {rs : List SubmitRequest} (h : Counted L rs) (hinv : Invariant L)
    {event : LobbyEvent} (hplain : ∀ a ∈ (L.step io event).out.actions, isSubmit a = false) :
    Counted (L.step io event) (stepEntry rs ⟨io, event, L, L.step io event⟩) := by
  have hinv' := step_invariant hinv io event
  unfold stepEntry Entry.begins
  dsimp only
  rw [submits_actions hplain]
  cases step_turned hinv io event with
  | goes k =>
    have hgoes : (!decide L.Stepping && decide (L.step io event).Stepping) = false := by
      by_contra hbegins
      have hbegins : ¬L.Stepping ∧ (L.step io event).Stepping := by simpa using hbegins
      exact hbegins.1 ((consumed_stepping L event).mp (k.stepping hbegins.2))
    rw [hgoes]
    exact k.counted (h.consumed event) hinv' (consumed_request L event)
  | begins M hM k =>
    have hbefore : ¬L.Stepping := fun hstep => hM.before ((consumed_stepping L event).mpr hstep)
    have hrequest : M.out.request = none := hM.request.trans (consumed_request L event)
    by_cases hstep : (L.step io event).Stepping
    · rw [if_pos (by simp [hbefore, hstep])]
      exact k.counted hM.counted hinv' hrequest
    · -- the step failed at once: nothing of it was sent
      have hnone : (L.step io event).out.request.toList.filter (fun r => isStepOp r.op) = [] := by
        cases k with
        | kept k =>
          rw [k.request, hrequest]
          rfl
        | other r _ hsent _ hop _ =>
          rw [hsent]
          rcases hop with hop | hop <;> simp [hop, isStepOp]
        | asked _ _ hstepping _ _ _ => exact absurd hstepping hstep
      rw [if_neg (by simp [hstep]), hnone, List.append_nil]
      exact ⟨h.few, h.same, fun hfalse => absurd hfalse hstep⟩

/-- What the requests of a run come to, and what the lobby makes of a reply that comes too late. -/
structure Disciplined (h : List Entry) (L : Lobby) : Prop where
  /-- an event submits at most one request, as its last action -/
  last : ∀ e ∈ h, ∃ others, (∀ a ∈ others, isSubmit a = false) ∧
    (e.after.actions = others ∨ ∃ r, e.after.actions = others ++ [.submitRequest r])
  /-- the requests without an answer are the one the lobby takes to be under way -/
  outstanding : (ledger h).map (·.op) = L.underWay.toList
  few : (stepRequests h).length ≤ maxTries
  same : ∀ r ∈ stepRequests h, ∀ r' ∈ stepRequests h, r = r'
  late : L.stage = .lobby → L.pending.isSome = true →
    ∀ io reply, ∃ level event fields, L.step io (.reply reply) =
    { L with pending := none, out := { actions := [.logLine level event fields] } }
  lateDrop : L.stage = .lobby →
    ∀ io, L.step io .submitDropped = { L with pending := none, out := {} }
  /-- no body that carries the peer token was built without it -/
  token : L.undefined = false

theorem late_reply (hinv : Invariant L) (hlobby : L.stage = .lobby)
    (hpending : L.pending.isSome = true) (io : LobbyIo) (reply : ControlReply) :
    ∃ level event fields, L.step io (.reply reply) =
      { L with pending := none, out := { actions := [.logLine level event fields] } } := by
  obtain ⟨p, hp⟩ := Option.isSome_iff_exists.mp hpending
  have horphan : p.orphaned = true := (hinv.orphaned p hp).mpr hlobby
  have hidle : ∀ out,
    runDue { L with pending := none, out := out } = { L with pending := none, out := out } := by
    intro out
    unfold runDue
    rw [if_pos (.inr (by simp [inLobby, hlobby]))]
  show ∃ level event fields, onReply { L with out := {} } io reply = _
  unfold onReply
  dsimp only
  rw [hp]
  dsimp only
  split_ifs with hmatch hlive
  · simp [horphan] at hlive
  · exact ⟨_, _, _, hidle _⟩
  · exact ⟨_, _, _, rfl⟩

theorem late_drop (hinv : Invariant L) (hlobby : L.stage = .lobby) (io : LobbyIo) :
    L.step io .submitDropped = { L with pending := none, out := {} } := by
  show onSubmitDropped { L with out := {} } = _
  unfold onSubmitDropped
  cases hp : L.pending with
  | none => dsimp only
  | some p =>
    dsimp only
    rw [if_neg (by simp [(hinv.orphaned p hp).mpr hlobby])]

theorem step_plain (hinv : Invariant L) {v : View} (hof : v.Of L) (io : LobbyIo)
    (event : LobbyEvent) :
    ∀ a ∈ (L.step io event).out.actions, isSubmit a = false := (step_shown hinv hof io event).plain

theorem run_ledger (hrun : Run h L) :
    Balanced L ((ledger h).map (·.op)) ∧ Counted L (stepRequests h) ∧
    ∀ e ∈ h, ∀ a ∈ e.after.out.actions, isSubmit a = false := by
  induction hrun with
  | start name =>
    have hcounted : Counted (create name) [] := ⟨Nat.zero_le _, nofun, fun _ => ⟨rfl, nofun⟩⟩
    exact ⟨rfl, hcounted, fun e he => absurd he List.not_mem_nil⟩
  | @event h L io event hrun ih =>
    obtain ⟨hbalanced, hcounted, hplain⟩ := ih
    have hinv := run_invariant hrun
    obtain ⟨w, -, hof⟩ := run_replay hrun
    have hnew := step_plain hinv hof io event
    refine ⟨?_, ?_, ?_⟩
    · unfold ledger at hbalanced ⊢
      rw [List.foldl_append]
      show Balanced _ ((ledgerEntry _ _).map _)
      unfold ledgerEntry
      have hconsumed := hbalanced.consumed event
      have hops : ∀ rs : List SubmitRequest, (if consumes event then rs.drop 1 else rs).map (·.op) =
          if consumes event then (rs.map (·.op)).drop 1 else rs.map (·.op) := by
        intro rs
        split_ifs
        · exact List.map_drop
        · rfl
      rw [submits_actions hnew, List.map_append, hops]
      exact (step_turned hinv io event).balanced hconsumed (consumed_request L event)
    · unfold stepRequests at hcounted ⊢
      rw [List.foldl_append]
      exact hcounted.step hinv hnew
    · intro e he
      rcases List.mem_append.mp he with hold | hlast
      · exact hplain e hold
      · rw [List.mem_singleton.mp hlast]
        exact hnew

/-- One request at a time: over every run the lobby submits only where nothing waits for an answer,
repeats a step's request unchanged and a bounded number of times, and a reply to an attempt that has
ended changes nothing else. -/
theorem request_discipline (hrun : Run h L) : Disciplined h L := by
  have hinv := run_invariant hrun
  obtain ⟨hbalanced, hcounted, hplain⟩ := run_ledger hrun
  constructor
  case last =>
    intro e he
    refine ⟨e.after.out.actions, hplain e he, ?_⟩
    unfold actions Batch.finish
    cases e.after.out.request with
    | none => exact .inl (List.append_nil _)
    | some r => exact .inr ⟨r, rfl⟩
  case outstanding => exact hbalanced
  case few => exact hcounted.few
  case same => exact hcounted.same
  case late => exact fun hlobby hpending => late_reply hinv hlobby hpending
  case lateDrop => exact fun hlobby => late_drop hinv hlobby
  case token => exact hinv.defined

/-- A host that was issued its room has asked once, and waits for no answer. -/
def hostRun : List Entry :=
  [⟨hostIo, .command { kind := .host }, create [0x61], hostBegun⟩,
    ⟨hostIo, .reply ⟨.createRoom,
      .issued { outcome := .success, failure := .none, value := some hostIssued }⟩, hostBegun,
      hostJoined⟩]

theorem joined_host_disciplined : (stepRequests hostRun).length = 1 ∧ ledger hostRun = [] ∧
    Disciplined hostRun hostJoined :=
  ⟨by
    decide +kernel, by
      decide +kernel, request_discipline (.event hostIo _ (.event hostIo _ (.start _)))⟩

end Sangtachi.Lobby
