import Sangtachi.Lobby.Progress

/-! # What the runner is told

The timers and the STUN query that the actions of the lobby leave behind, action by action, against
what the lobby itself takes to be armed. -/
namespace Sangtachi.Lobby

open Sangtachi.BigEndian Sangtachi.Packet Sangtachi.Peer Sangtachi.Tunnel

variable {L L' : Lobby} {io : LobbyIo}

/-- The timers of the lobby that are armed, and whether its STUN query is under way. -/
structure View where
  timers : List TimerName
  stun : Bool
  deriving DecidableEq

/-- One action; there is no view after an action that the runner has to refuse: a timer armed
twice, a second query. -/
def View.act (v : View) : LobbyAction → Option View
  | .armTimer name _ =>
    if name ∈ v.timers then none else some { v with timers := v.timers ++ [name] }
  | .cancelTimer name => some { v with timers := v.timers.filter (· ≠ name) }
  | .startStun => if v.stun then none else some { v with stun := true }
  | .cancelStun => some { v with stun := false }
  | _ => some v

/-- Before an event is handled: a timer that expired is gone, a query that ended is answered. -/
def View.before (v : View) : LobbyEvent → View
  | .timer name => { v with timers := v.timers.filter (· ≠ name) }
  | .stunDone _ _ => { v with stun := false }
  | _ => v

/-- The view of the runner is what the lobby takes to be so. -/
structure View.Of (w : View) (L : Lobby) : Prop where
  timers : ∀ n, n ∈ w.timers ↔ n ∈ L.armed
  stun : w.stun = true ↔ L.stage = .stun

def isSubmit : LobbyAction → Bool
  | .submitRequest _ => true
  | _ => false

/-- The actions so far leave the view of the lobby, and none of them is a request. -/
structure Shown (v : View) (L : Lobby) : Prop where
  view : ∃ w, L.out.actions.foldlM View.act v = some w ∧ w.Of L
  plain : ∀ a ∈ L.out.actions, isSubmit a = false

def Silent (a : LobbyAction) : Prop := (∀ v, View.act v a = some v) ∧ isSubmit a = false

variable {v : View}

theorem View.Of.same {w : View} (h : w.Of L) (harmed : L'.armed = L.armed)
    (hstage : L'.stage = .stun ↔ L.stage = .stun) :
    w.Of L' where
  timers := by
    rw [harmed]
    exact h.timers
  stun := h.stun.trans hstage.symm

theorem Shown.same (h : Shown v L) (hout : L'.out.actions = L.out.actions)
    (harmed : L'.armed = L.armed) (hstage : L'.stage = .stun ↔ L.stage = .stun) :
    Shown v L' := by
  obtain ⟨w, hview, hof⟩ := h.view
  constructor
  · exact ⟨w, by rw [hout]; exact hview, hof.same harmed hstage⟩
  · rw [hout]
    exact h.plain

theorem Shown.acts (h : Shown v L) {a : LobbyAction} (hout : L'.out.actions = L.out.actions ++ [a])
    (ha : isSubmit a = false) (hact : ∀ w, w.Of L → ∃ w', View.act w a = some w' ∧ w'.Of L') :
    Shown v L' := by
  obtain ⟨w, hview, hof⟩ := h.view
  obtain ⟨w', hstep, hof'⟩ := hact w hof
  constructor
  · refine ⟨w', ?_, hof'⟩
    rw [hout, List.foldlM_append, hview]
    simpa using hstep
  · intro b hb
    rw [hout] at hb
    rcases List.mem_append.mp hb with hold | hnew
    · exact h.plain b hold
    · exact List.mem_singleton.mp hnew ▸ ha

theorem Shown.push (h : Shown v L) {a : LobbyAction} (ha : Silent a) : Shown v (L.push a) :=
  h.acts rfl ha.2 fun w hof => ⟨w, ha.1 w, hof.same rfl Iff.rfl⟩

theorem Shown.pushAll {as : List LobbyAction} (has : ∀ a ∈ as, Silent a) (h : Shown v L) :
    Shown v (L.pushAll as) := by
  induction as generalizing L with
  | nil => exact h.same (List.append_nil _) rfl Iff.rfl
  | cons a as ih =>
    have hrest :=
      ih (fun b hb => has b (List.mem_cons_of_mem _ hb)) (h.push (has a List.mem_cons_self))
    refine hrest.same ?_ rfl Iff.rfl
    exact (List.append_assoc L.out.actions [a] as).symm

theorem Shown.guide (h : Shown v L) (lines : List Bytes) :
    Shown v (L.pushAll (lines.map .guideLine)) := by
  refine Shown.pushAll ?_ h
  intro a ha
  obtain ⟨line, -, rfl⟩ := List.mem_map.mp ha
  exact ⟨fun _ => rfl, rfl⟩

theorem Shown.when {M : Lobby} {c : Prop} [Decidable c] (h : Shown v L) (k : Shown v M) :
    Shown v (if c then L else M) := by
  split_ifs
  · exact h
  · exact k

/-! ## Timers -/

theorem Shown.cancel (h : Shown v L) (name : TimerName) :
    Shown v ((L.forgetArmed name).push (.cancelTimer name)) := by
  apply h.acts (a := .cancelTimer name) rfl rfl
  intro w hof
  refine ⟨_, rfl, ?_, hof.stun⟩
  intro n
  show n ∈ w.timers.filter (· ≠ name) ↔ n ∈ L.armed.filter (· ≠ name)
  rw [List.mem_filter, List.mem_filter, hof.timers n]

theorem Shown.arm (h : Shown v L) (name : TimerName) (delayMs : Millis) :
    Shown v (L.arm name delayMs) := by
  unfold Lobby.arm
  by_cases harmed : name ∈ L.armed
  · rw [if_pos harmed]
    apply (h.cancel name).acts (a := .armTimer name delayMs) rfl rfl
    intro w hof
    have hgone : name ∉ w.timers := by
      intro hname
      simpa using (List.mem_filter.mp ((hof.timers name).mp hname)).2
    refine ⟨{ w with timers := w.timers ++ [name] }, if_neg hgone, ?_, hof.stun⟩
    intro n
    have hkept : n ∈ w.timers ↔ n ∈ L.armed ∧ n ≠ name := by
      rw [hof.timers n]
      simp [forgetArmed, Lobby.push]
    simp only [List.mem_append, List.mem_singleton, hkept]
    by_cases hn : n = name
    · simpa [hn, Lobby.push] using harmed
    · simp [hn, Lobby.push]
  · rw [if_neg harmed]
    apply h.acts (a := .armTimer name delayMs) rfl rfl
    intro w hof
    refine ⟨{ w with timers := w.timers ++ [name] },
      if_neg fun hname => harmed ((hof.timers name).mp hname), ?_, hof.stun⟩
    intro n
    simp [Lobby.push, hof.timers n]

theorem Shown.disarm (h : Shown v L) (name : TimerName) : Shown v (L.disarm name) := by
  unfold Lobby.disarm
  exact (h.cancel name).when h

theorem disarm_stage (L : Lobby) (name : TimerName) : (L.disarm name).stage = L.stage := by
  unfold Lobby.disarm
  split_ifs
  · rfl
  · rfl

theorem disarmAll_stage (L : Lobby) : L.disarmAll.stage = L.stage := by
  have hfold : ∀ (names : List TimerName) (M : Lobby),
    (names.foldl Lobby.disarm M).stage = M.stage := by
    intro names
    induction names with
    | nil => exact fun _ => rfl
    | cons name rest ih => exact fun M => (ih (M.disarm name)).trans (disarm_stage M name)
  exact hfold _ L

theorem Shown.disarmAll (h : Shown v L) : Shown v L.disarmAll := by
  have hfold : ∀ (names : List TimerName) {M : Lobby}, Shown v M →
    Shown v (names.foldl Lobby.disarm M) := by
    intro names
    induction names with
    | nil => exact id
    | cons name rest ih => exact fun hM => ih (hM.disarm name)
  exact hfold _ h

/-! ## The end of an attempt -/

theorem Shown.recordUnfinished (h : Shown v L) (result : String) :
    Shown v (L.recordUnfinished result) := by
  unfold Lobby.recordUnfinished
  exact (h.push ⟨fun _ => rfl, rfl⟩).when ((h.push ⟨fun _ => rfl, rfl⟩).when h)

theorem Shown.cleared (h : Shown v L) :
    Shown v (if L.stage = .stun then L.push .cancelStun else L).cleared := by
  by_cases hstun : L.stage = .stun
  · rw [if_pos hstun]
    apply h.acts (a := .cancelStun) rfl rfl
    intro w hof
    exact ⟨{ w with stun := false }, rfl, hof.timers, ⟨nofun, nofun⟩⟩
  · rw [if_neg hstun]
    exact h.same rfl rfl ⟨nofun, fun hfalse => absurd hfalse hstun⟩

theorem Shown.endAttempt (h : Shown v L) (reason : String) (leaveRoom : Bool) :
    Shown v (L.endAttempt reason leaveRoom) := by
  have hcleared := h.disarmAll.cleared
  rw [disarmAll_stage] at hcleared
  have hroom : ∀ {M : Lobby}, Shown v M →
    Shown v (if leaveRoom = true then M.push .leaveRoom else M) :=
    fun hM => (hM.push ⟨fun _ => rfl, rfl⟩).when hM
  have hlogged := (hroom hcleared).push
    (a := .logLine .info "attempt.end" [⟨"reason", ascii reason⟩]) ⟨fun _ => rfl, rfl⟩
  unfold Lobby.endAttempt
  exact (hlogged.guide _).when hlogged

theorem Shown.endRoom (h : Shown v L) : Shown v L.endRoom := by
  unfold Lobby.endRoom
  refine h.when ?_
  have hended : Shown v { L with roomEnded := true } := h.same rfl rfl Iff.rfl
  have hlogged : Shown v (({ L with roomEnded := true }.push
      (.printLine (failLine .controlPlaneExchangeFailed noPeer))).sessionFailed
      .controlPlaneExchangeFailed) :=
    (hended.push ⟨fun _ => rfl, rfl⟩).push ⟨fun _ => rfl, rfl⟩
  dsimp only
  generalize ({ L with roomEnded := true }.push
    (.printLine (failLine .controlPlaneExchangeFailed noPeer))).sessionFailed
    .controlPlaneExchangeFailed = M at hlogged ⊢
  have hunreported : Shown v { M with reporting := false, reportDue := false } :=
    hlogged.same rfl rfl Iff.rfl
  have hstopped := hunreported.disarm .hostReport
  exact (hstopped.endAttempt _ _).when hstopped

theorem Shown.fail (h : Shown v L) (code : FailCode) : Shown v (L.fail code) := by
  unfold Lobby.fail
  refine h.endRoom.when ?_
  have hprinted := h.push (a := .printLine (failLine code noPeer)) ⟨fun _ => rfl, rfl⟩
  have hlogged : Shown v (if code ≠ .stunDiscoveryFailed then
      (L.push (.printLine (failLine code noPeer))).sessionFailed code
      else L.push (.printLine (failLine code noPeer))) :=
        Shown.when (hprinted.push ⟨fun _ => rfl, rfl⟩) hprinted
  exact (hlogged.recordUnfinished _).endAttempt _ _

/-! ## Requests -/

theorem Shown.submit (h : Shown v L) (op : Op) (body : Body) (departed : List U32) :
    Shown v (L.submit op body departed) :=
  h.same rfl rfl Iff.rfl

theorem Shown.sendOrDeferRequest (h : Shown v L) : Shown v L.sendOrDeferRequest := by
  unfold Lobby.sendOrDeferRequest
  exact Shown.when (h.same rfl rfl Iff.rfl) (h.same rfl rfl Iff.rfl)

theorem Shown.withToken (h : Shown v L) (build : PeerToken → Option Body) :
    Shown v (L.withToken build).2 := by
  unfold Lobby.withToken
  split
  · exact h
  · exact h.same rfl rfl Iff.rfl

theorem Shown.sendHostReport (h : Shown v L) : Shown v L.sendHostReport := by
  unfold Lobby.sendHostReport
  refine Shown.when (h.same rfl rfl Iff.rfl) ?_
  have hundue : Shown v { L with reportDue := false } := h.same rfl rfl Iff.rfl
  have htoken :=
    hundue.withToken fun token => hostReportBody L.roomId L.peerId token L.departed L.confirm
  dsimp only
  split
  case h_1 M heq =>
    rw [heq] at htoken
    exact htoken.fail _
  case h_2 body M heq =>
    rw [heq] at htoken
    exact ((htoken.disarm _).arm _ _).submit _ _ _

theorem Shown.runDue (h : Shown v L) : Shown v L.runDue := by
  unfold Lobby.runDue
  exact h.when (h.sendOrDeferRequest.when (h.sendHostReport.when h))

theorem Shown.retryOrFail (h : Shown v L) : Shown v L.retryOrFail := by
  unfold Lobby.retryOrFail
  exact (h.arm _ _).when (h.fail _)

/-! ## Commands -/

theorem Shown.startAttempt (h : Shown v L) (role : LobbyRole) (room : Bytes)
    (hstage : L.stage ≠ .stun) :
    Shown v (L.startAttempt io role room) := by
  have hissuing : Shown v { L with role := role, stage := .issuing } :=
    h.same rfl rfl ⟨nofun, fun hstun => absurd hstun hstage⟩
  have hstarted :
    Shown v (({ L with role := role, stage := .issuing } : Lobby).log .info "attempt.start"
      [⟨"role", ascii role.token⟩]) :=
    hissuing.push ⟨fun _ => rfl, rfl⟩
  unfold Lobby.startAttempt
  dsimp only
  generalize ({ L with role := role, stage := .issuing } : Lobby).log .info "attempt.start"
    [⟨"role", ascii role.token⟩] = M at hstarted ⊢
  cases io.nonce with
  | none => exact hstarted.fail _
  | some nonce =>
    dsimp only
    generalize (if role = .host then (Op.createRoom, createRoomBody nonce M.name)
      else (Op.joinRoom, joinRoomBody room nonce M.name)) = request
    obtain ⟨op, body⟩ := request
    have hop : Shown v { M with requestOp := op } := hstarted.same rfl rfl Iff.rfl
    cases body with
    | none => exact hop.fail _
    | some body =>
      have hbody : Shown v { M with requestOp := op, requestBody := body, tries := 0 } :=
        hstarted.same rfl rfl Iff.rfl
      exact hbody.sendOrDeferRequest

theorem Shown.reject (h : Shown v L) (reason : String) (kind : CommandKind) :
    Shown v (L.reject reason kind) :=
  (h.push ⟨fun _ => rfl, rfl⟩).push ⟨fun _ => rfl, rfl⟩

theorem Shown.onCommand (h : Shown v L) (command : LobbyCommand) :
    Shown v (L.onCommand io command) := by
  unfold Lobby.onCommand
  have hstart : Shown v (L.onStartCommand io command) := by
    unfold Lobby.onStartCommand
    by_cases hlobby : L.stage = .lobby
    · have hstage : L.stage ≠ .stun := by rw [hlobby]; decide
      split_ifs
      · exact h.reject _ _
      · exact h.reject _ _
      · exact h.reject _ _
      · exact h.startAttempt _ _ hstage
      · exact h.reject _ _
      · exact h.reject _ _
      · exact h.startAttempt _ _ hstage
    · rw [if_pos (by simp [inLobby, hlobby])]
      exact h.reject _ _
  cases command.kind with
  | help => exact (h.reject _ _).when ((h.guide _).when (h.guide _))
  | leave => exact (h.reject _ _).when ((h.reject _ _).when ((h.recordUnfinished _).endAttempt _ _))
  | name =>
    have hnamed : Shown v { L with name := command.argument } := h.same rfl rfl Iff.rfl
    dsimp only
    unfold onName
    split_ifs
    · exact h.reject _ _
    · exact h.reject _ _
    · exact h.reject _ _
    · exact h.reject _ _
    · exact (hnamed.push ⟨fun _ => rfl, rfl⟩).push ⟨fun _ => rfl, rfl⟩
  | host => exact hstart
  | join => exact hstart

/-! ## Pairs -/

theorem Shown.openPair (h : Shown v L) (peer : PeerView) (setupBaseMs : Millis) :
    Shown v (L.openPair peer setupBaseMs) := by
  have hpaired : Shown v (L.setPair { peerId := peer.peerId, name := peer.name }) :=
    h.same rfl rfl Iff.rfl
  unfold Lobby.openPair
  dsimp only
  generalize L.setPair { peerId := peer.peerId, name := peer.name } = P at hpaired ⊢
  have hopened := fun request =>
    hpaired.push (a := .openSession request peer.name P.role setupBaseMs) ⟨fun _ => rfl, rfl⟩
  exact ((hopened _).push ⟨fun _ => rfl, rfl⟩).when ((hopened _).arm _ _)

theorem Shown.reportClosed (h : Shown v L) : Shown v L.reportClosed := by
  unfold Lobby.reportClosed
  have hreported : Shown v (if L.reporting = true then L.sendHostReport else L) :=
    h.sendHostReport.when h
  exact (hreported.endAttempt _ _).when hreported

theorem Shown.closePair (h : Shown v L) (peerId : U32) (failure : Option FailCode) :
    Shown v (L.closePair peerId failure) := by
  unfold Lobby.closePair
  cases L.findPair peerId with
  | none => exact h
  | some pair =>
    refine h.when ?_
    have hdeactivated : Shown v (L.deactivate peerId) := h.same rfl rfl Iff.rfl
    have hdisarmed : Shown v ((L.deactivate peerId).disarm (.punch peerId)) := hdeactivated.disarm _
    have hprinted : Shown v (failure.elim ((L.deactivate peerId).disarm (.punch peerId)) fun code =>
        ((L.deactivate peerId).disarm (.punch peerId)).push
          (.printLine (failLine code pair.name))) := by
      cases failure with
      | none => exact hdisarmed
      | some code => exact hdisarmed.push ⟨fun _ => rfl, rfl⟩
    dsimp only
    generalize failure.elim ((L.deactivate peerId).disarm (.punch peerId)) (fun code =>
      ((L.deactivate peerId).disarm (.punch peerId)).push (.printLine (failLine code pair.name))) =
        M at hprinted ⊢
    have hnoted : Shown v (M.noteDeparted peerId) := by
      unfold noteDeparted
      exact Shown.when (hprinted.same rfl rfl Iff.rfl) hprinted
    exact (hprinted.endAttempt _ _).when hnoted.reportClosed

/-! ## Replies -/

theorem Shown.takeIssued (h : Shown v L) (issued : Issued) (hstage : L.stage ≠ .stun) :
    Shown v (L.takeIssued io issued) := by
  have hjoined : ∀ {M : Lobby}, Shown v M → M.stage ≠ .stun →
      Shown v ({ M with stage := .stun, stunStarted := io.now }.push .startStun) := by
    intro M hM hnot
    apply hM.acts (a := .startStun) rfl rfl
    intro w hof
    have hoff : w.stun = false := by simpa using fun htrue => hnot (hof.stun.mp htrue)
    refine ⟨{ w with stun := true }, ?_, hof.timers, fun _ => rfl, fun _ => rfl⟩
    simp [View.act, hoff]
  have hprinted : ∀ {M : Lobby} {a₁ a₂ a₃ a₄}, Shown v M → Silent a₁ → Silent a₂ →
    Silent a₃ → Silent a₄ →
      Shown v ((((M.push a₁).push a₂).push a₃).push a₄) :=
    fun hM h₁ h₂ h₃ h₄ => (((hM.push h₁).push h₂).push h₃).push h₄
  unfold Lobby.takeIssued
  dsimp only
  generalize hM : Lobby.push _ (.assignAddress _) = M
  have hshown : Shown v M ∧ M.stage = L.stage := by
    subst hM
    refine ⟨hprinted (h.same rfl rfl Iff.rfl) ?_ ?_ ?_ ?_, rfl⟩
    all_goals exact ⟨fun _ => rfl, rfl⟩
  clear hM
  obtain ⟨hM, hsame⟩ := hshown
  split_ifs
  · have hreporting : Shown v { M with reporting := true } := hM.same rfl rfl Iff.rfl
    apply hjoined (hreporting.arm _ _)
    unfold Lobby.arm
    split_ifs
    · exact hsame ▸ hstage
    · exact hsame ▸ hstage
  · exact hjoined hM (hsame ▸ hstage)

theorem Shown.onIssued (h : Shown v L) (reply : Reply Issued) (hstage : L.stage ≠ .stun) :
    Shown v (L.onIssued io reply) := by
  unfold Lobby.onIssued
  split_ifs
  · exact h.retryOrFail
  · split
    · exact h.takeIssued _ hstage
    · exact h.fail _

theorem Shown.takeRegistered (h : Shown v L) (registered : Registered) (hstage : L.stage ≠ .stun) :
    Shown v (L.takeRegistered registered) := by
  have hlogged : Shown v (if registered.rejected ≠ 0 then
      L.log .warn "control.candidates_rejected"
        [⟨"rejected", decimal registered.rejected.toNat⟩] else L) :=
    Shown.when (h.push ⟨fun _ => rfl, rfl⟩) h
  have hsame : (if registered.rejected ≠ 0 then
      L.log .warn "control.candidates_rejected"
        [⟨"rejected", decimal registered.rejected.toNat⟩] else L).stage = L.stage := by
    split_ifs
    · rfl
    · rfl
  unfold Lobby.takeRegistered
  generalize (if registered.rejected ≠ 0 then
    L.log .warn "control.candidates_rejected" [⟨"rejected", decimal registered.rejected.toNat⟩] else
      L) = M at hlogged hsame ⊢
  have hto : ∀ stage, stage ≠ .stun →
    Shown v { M with requestBody := .empty, tries := 0, stage := stage } := by
    intro stage hnot
    exact hlogged.same rfl rfl (iff_of_false hnot (hsame ▸ hstage))
  dsimp only
  split_ifs
  · exact (hto .settled (by decide)).push ⟨fun _ => rfl, rfl⟩
  · exact ((hto .polling (by decide)).arm _ _).arm _ _

theorem Shown.onRegistered (h : Shown v L) (reply : Reply Registered) (hstage : L.stage ≠ .stun) :
    Shown v (L.onRegistered reply) := by
  unfold Lobby.onRegistered
  split_ifs
  · exact h.retryOrFail
  · split
    · exact h.takeRegistered _ hstage
    · exact h.fail _

theorem Shown.takeHostPeer (h : Shown v L) (peer : PeerView) (hstage : L.stage ≠ .stun) :
    Shown v (L.takeHostPeer peer) := by
  have hseen : Shown v { L with hostPeer := some peer.peerId } := h.same rfl rfl Iff.rfl
  unfold Lobby.takeHostPeer
  dsimp only
  split_ifs
  · have hlogged : Shown v (Lobby.log { L with hostPeer := some peer.peerId } .info "control.peers"
        (controlPeersFields peer)) := hseen.push ⟨fun _ => rfl, rfl⟩
    have hdisarmed := (hlogged.disarm .deadline).disarm .poll
    generalize hM :
      (Lobby.disarm (Lobby.log { L with hostPeer := some peer.peerId } .info "control.peers"
      (controlPeersFields peer)) .deadline).disarm .poll = M at hdisarmed ⊢
    have hsame : M.stage = L.stage := by
      rw [← hM, disarm_stage, disarm_stage]
      rfl
    have hsettled : Shown v { M with stage := .settled } :=
      hdisarmed.same rfl rfl (iff_of_false nofun (hsame ▸ hstage))
    exact hsettled.openPair _ _
  · exact hseen.arm _ _

theorem Shown.onPeers (h : Shown v L) (reply : Reply Peers) (hstage : L.stage ≠ .stun) :
    Shown v (L.onPeers reply) := by
  unfold Lobby.onPeers
  split_ifs
  · exact h.arm _ _
  · split
    · exact h.takeHostPeer _ hstage
    · exact h.fail _

theorem Shown.noteListed {s : Lobby × List U32} (h : Shown v s.1) (announced : List U32)
    (peer : PeerView) :
    Shown v (noteListed io announced s peer).1 := by
  obtain ⟨L, stillHere⟩ := s
  have hseen : Shown v (if L.firstSeen.any (·.1 = peer.peerId) then L
      else { L with firstSeen := L.firstSeen ++ [(peer.peerId, io.now)] }) := Shown.when h
      (h.same rfl rfl Iff.rfl)
  unfold Lobby.noteListed
  dsimp only
  generalize (if L.firstSeen.any (·.1 = peer.peerId) then L
    else { L with firstSeen := L.firstSeen ++ [(peer.peerId, io.now)] }) = M at hseen ⊢
  have hconfirm :
    Shown v (if !peer.ready then { M with confirm := M.confirm ++ [peer.peerId] } else M) :=
    Shown.when (hseen.same rfl rfl Iff.rfl) hseen
  generalize (if !peer.ready then { M with confirm := M.confirm ++ [peer.peerId] } else M) =
    N at hconfirm ⊢
  by_cases hannounced : peer.peerId ∈ announced
  · rw [if_pos hannounced]
    exact hconfirm
  · rw [if_neg hannounced]
    split_ifs
    · exact hconfirm.push ⟨fun _ => rfl, rfl⟩
    · exact hconfirm

theorem Shown.openListed (h : Shown v L) (peer : PeerView) : Shown v (L.openListed peer) := by
  unfold Lobby.openListed
  exact (h.openPair _ _).when h

theorem Shown.takeReport (h : Shown v L) (peers : List PeerView) (carried : List U32) :
    Shown v (L.takeReport io peers carried) := by
  have hnoted :
    ∀ (rest : List PeerView) (announced : List U32) {s : Lobby × List U32}, Shown v s.1 →
      Shown v (rest.foldl (Lobby.noteListed io announced) s).1 := by
    intro rest announced
    induction rest with
    | nil => exact id
    | cons peer rest ih => exact fun hs => ih (hs.noteListed announced peer)
  have hopened : ∀ (rest : List PeerView) {M : Lobby}, Shown v M →
    Shown v (rest.foldl Lobby.openListed M) := by
    intro rest
    induction rest with
    | nil => exact id
    | cons peer rest ih => exact fun hM => ih (hM.openListed peer)
  have hcarried :
    Shown v
      { L with departed := L.departed.filter (· ∉
        carried), lastPeerCount := peers.length, confirm := [] } :=
    h.same rfl rfl Iff.rfl
  have hfold := hnoted peers L.announced (s := (_, [])) hcarried
  unfold Lobby.takeReport
  dsimp only
  generalize peers.foldl (Lobby.noteListed io L.announced) _ = s at hfold ⊢
  have hforgot : Shown v (forgetGone { s.1 with announced := s.2 } (peers.map PeerView.peerId)) :=
    hfold.same rfl rfl Iff.rfl
  split_ifs
  · exact hforgot
  · exact hopened peers (hforgot.push ⟨fun _ => rfl, rfl⟩)

theorem Shown.onHostReport (h : Shown v L) (reply : Reply HostReport) (pending : Pending) :
    Shown v (L.onHostReport io reply pending) := by
  unfold Lobby.onHostReport
  split_ifs
  · exact h.fail _
  · split
    · exact h.takeReport _ _
    · exact h

theorem Shown.takeReply (h : Shown v L) (op : Op) (pending : Pending) {reply : ReplyBody}
    (hstage : reply.index ≠ 3 → L.stage ≠ .stun) : Shown v (L.takeReply io op pending reply) := by
  have hlogged : ∀ outcome failure, Shown v (L.resultLine op outcome failure) :=
    fun _ _ => h.push ⟨fun _ => rfl, rfl⟩
  cases reply with
  | issued r => exact (hlogged _ _).onIssued r (hstage nofun)
  | registered r => exact (hlogged _ _).onRegistered r (hstage nofun)
  | peers r => exact (hlogged _ _).onPeers (asPlayerReply r) (hstage nofun)
  | hostReport r => exact (hlogged _ _).onHostReport r pending

theorem Shown.onReply (h : Shown v L) (hinv : Invariant L) (reply : ControlReply) :
    Shown v (L.onReply io reply) := by
  unfold Lobby.onReply
  cases hpending : L.pending with
  | none => exact h.push ⟨fun _ => rfl, rfl⟩
  | some p =>
    have hfree : Shown v { L with pending := none } := h.same rfl rfl Iff.rfl
    have hlogged : ∀ level event fields,
      Shown v (Lobby.log { L with pending := none } level event fields) :=
      fun _ _ _ => hfree.push ⟨fun _ => rfl, rfl⟩
    dsimp only
    by_cases hmatch : p.op ≠ reply.op ∨ reply.reply.index ≠ replyIndex p.op
    · rw [if_pos hmatch]
      exact Shown.runDue (Shown.when (Shown.fail (hlogged _ _ _) _) (hlogged _ _ _))
    · rw [if_neg hmatch]
      by_cases horphan : p.orphaned = true
      · rw [if_pos horphan]
        exact hlogged _ _ _
      · rw [if_neg horphan]
        have hindex : reply.reply.index = replyIndex p.op := not_not.mp (not_or.mp hmatch).2
        have hlobby : L.stage ≠ .lobby :=
          fun hlobby => horphan ((hinv.orphaned p hpending).mpr hlobby)
        apply Shown.runDue
        refine hfree.takeReply reply.op p fun hnot => ?_
        intro (hstun : L.stage = .stun)
        have hfits := hinv.fits p hpending
        rw [hstun] at hfits
        rw [hindex, show p.op = .hostReport from hfits] at hnot
        exact hnot rfl

theorem Shown.onSubmitDropped (h : Shown v L) : Shown v L.onSubmitDropped := by
  unfold Lobby.onSubmitDropped
  cases L.pending with
  | none => exact h
  | some p =>
    have hfree : Shown v { L with pending := none } := h.same rfl rfl Iff.rfl
    exact (hfree.fail _).when hfree

/-! ## The other events -/

theorem Shown.onStunDone (hout : L.out.actions = []) (hof : v.Of L) (ok : Bool)
    (mappings : List StunMapping) :
    Shown { v with stun := false } (L.onStunDone io ok mappings) := by
  unfold Lobby.onStunDone
  by_cases hstage : L.stage = .stun
  · rw [if_neg (not_not_intro hstage)]
    have hfresh : Shown { v with stun := false } { L with stage := .registering } := by
      constructor
      · refine ⟨{ v with stun := false }, ?_, hof.timers, nofun, nofun⟩
        show L.out.actions.foldlM View.act _ = _
        rw [hout]
        rfl
      · show ∀ a ∈ L.out.actions, isSubmit a = false
        rw [hout]
        exact nofun
    dsimp only
    refine Shown.when (hfresh.fail _) ?_
    have htoken := hfresh.withToken fun token =>
      registerCandidateBody L.roomId L.peerId token (io.collect (mappings.map (·.mapped)))
    split
    case h_1 M heq =>
      rw [heq] at htoken
      exact htoken.fail _
    case h_2 body M heq =>
      rw [heq] at htoken
      have hbody : Shown { v with stun := false }
          { M with requestOp := .registerCandidate, requestBody := body, tries := 0 } := htoken.same
            rfl rfl Iff.rfl
      exact hbody.sendOrDeferRequest
  · rw [if_pos hstage]
    constructor
    · refine ⟨{ v with stun := false }, ?_, hof.timers, nofun, fun hstun => absurd hstun hstage⟩
      rw [hout]
      rfl
    · rw [hout]
      exact nofun

theorem Shown.onSessionEvent (h : Shown v L) (event : SessionEvent) :
    Shown v (L.onSessionEvent event) := by
  unfold Lobby.onSessionEvent
  refine Shown.when ?_ (h.when (h.closePair _ _))
  cases L.findPair event.peerId with
  | none => exact h
  | some pair => exact Shown.when (h.push ⟨fun _ => rfl, rfl⟩) h

theorem Shown.onSessionOpenFailed (h : Shown v L) (peerId : U32) :
    Shown v (L.onSessionOpenFailed peerId) := by
  unfold Lobby.onSessionOpenFailed
  cases L.findPair peerId with
  | none => exact h
  | some pair =>
    dsimp only
    refine h.when ?_
    generalize hM : Lobby.push (Lobby.log L .error "session.failed" _) _ = M
    have hlogged : Shown v M := by
      subst hM
      exact Shown.push (Shown.push h ⟨fun _ => rfl, rfl⟩) ⟨fun _ => rfl, rfl⟩
    have hrenamed : Shown v (M.clearPairName peerId) := hlogged.same rfl rfl Iff.rfl
    exact hrenamed.closePair _ _

theorem Shown.onShutdown (h : Shown v L) : Shown v L.onShutdown := by
  unfold Lobby.onShutdown
  exact h.when ((h.recordUnfinished _).endAttempt _ _)

theorem Shown.onTimer (hout : L.out.actions = []) (hinv : Invariant L) (hof : v.Of L)
    (name : TimerName) :
    Shown { v with timers := v.timers.filter (· ≠ name) } (L.onTimer name) := by
  unfold Lobby.onTimer
  by_cases hstray : (!ownsTimer name) = true ∨ name ∉ L.armed
  · rw [if_pos hstray]
    have hnot : name ∉ L.armed := by
      rcases hstray with hforeign | hnot
      · intro hname
        have hbelongs := hinv.timers name hname
        cases name with
        | stunRetry server => exact hbelongs
        | stunDeadline server => exact hbelongs
        | other text => exact hbelongs
        | _ => simp [ownsTimer] at hforeign
      · exact hnot
    constructor
    · refine ⟨{ v with timers := v.timers.filter (· ≠ name) }, by rw [hout]; rfl, ?_, hof.stun⟩
      intro n
      rw [List.mem_filter, hof.timers n]
      constructor
      · exact fun hn => hn.1
      · intro hn
        exact ⟨hn, by simpa using fun heq : n = name => hnot (heq ▸ hn)⟩
    · rw [hout]
      exact nofun
  · rw [if_neg hstray]
    have hfresh : Shown { v with timers := v.timers.filter (· ≠ name) } (L.forgetArmed name) := by
      constructor
      · refine ⟨{ v with timers := v.timers.filter (· ≠ name) }, ?_, ?_, hof.stun⟩
        · show L.out.actions.foldlM View.act _ = _
          rw [hout]
          rfl
        · intro n
          show n ∈ v.timers.filter (· ≠ name) ↔ n ∈ L.armed.filter (· ≠ name)
          rw [List.mem_filter, List.mem_filter, hof.timers n]
      · show ∀ a ∈ L.out.actions, isSubmit a = false
        rw [hout]
        exact nofun
    dsimp only
    cases name with
    | retry => exact (hfresh.sendOrDeferRequest).when hfresh
    | poll =>
      dsimp only
      unfold onPollTimer
      refine Shown.when ?_ hfresh
      have htoken := hfresh.withToken fun token =>
        getPeersBody (L.forgetArmed .poll).roomId (L.forgetArmed .poll).peerId token
      split
      case h_1 M heq =>
        rw [heq] at htoken
        exact htoken.fail _
      case h_2 body M heq =>
        rw [heq] at htoken
        exact htoken.submit _ _ _
    | deadline => exact (hfresh.fail _).when hfresh
    | hostReport => exact hfresh.sendHostReport.when hfresh
    | punch peerId => exact hfresh.push ⟨fun _ => rfl, rfl⟩
    | stunRetry server => exact hfresh
    | stunDeadline server => exact hfresh
    | other text => exact hfresh

/-! ## Runs -/

theorem step_shown (hinv : Invariant L) (hof : v.Of L) (io : LobbyIo) (event : LobbyEvent) :
    Shown (v.before event) (L.step io event) := by
  have hinv' : Invariant { L with out := {} } := hinv.same (sameStage_out L _)
  have hof' : v.Of { L with out := {} } := hof.same rfl Iff.rfl
  have hfresh : Shown v { L with out := {} } := ⟨⟨v, rfl, hof'⟩, nofun⟩
  unfold step
  cases event with
  | start => exact hfresh.guide _
  | command c => exact hfresh.onCommand c
  | reply r => exact hfresh.onReply hinv' r
  | submitDropped => exact hfresh.onSubmitDropped
  | stunDone ok mappings => exact Shown.onStunDone rfl hof' ok mappings
  | timer name => exact Shown.onTimer rfl hinv' hof' name
  | session e => exact hfresh.onSessionEvent e
  | sessionOpenFailed peerId => exact hfresh.onSessionOpenFailed peerId
  | shutdown => exact hfresh.onShutdown

def View.entry (v : View) (e : Entry) : Option View :=
  e.after.actions.foldlM View.act (v.before e.event)

/-- What the actions of a run leave, from nothing armed and no query under way. -/
def replay (h : List Entry) : Option View := h.foldlM View.entry ⟨[], false⟩

/-- The runner never has to refuse an action, and what it has armed is what the lobby takes to be
armed. -/
theorem run_replay {h : List Entry} (hrun : Run h L) : ∃ w, replay h = some w ∧ w.Of L := by
  induction hrun with
  | start name => exact ⟨_, rfl, fun _ => Iff.rfl, nofun, nofun⟩
  | @event h L io e hrun ih =>
    obtain ⟨v, hview, hof⟩ := ih
    obtain ⟨⟨w, hstep, hof'⟩, -⟩ := step_shown (run_invariant hrun) hof io e
    refine ⟨w, ?_, hof'⟩
    unfold replay at hview ⊢
    rw [List.foldlM_append, hview]
    have hrequest : ∀ (rs : List SubmitRequest) (u : View),
      (rs.map LobbyAction.submitRequest).foldlM View.act u = some u := by
      intro rs u
      induction rs with
      | nil => rfl
      | cons r rs ih => exact ih
    have hentry : View.entry v ⟨io, e, L, L.step io e⟩ = some w := by
      unfold View.entry actions Batch.finish
      rw [List.foldlM_append, hstep]
      exact hrequest _ w
    simpa using hentry

end Sangtachi.Lobby
