import Sangtachi.Lobby.Trace

/-! # The moves of an event

Whatever an event does to the lobby, it does in moves, each with the actions it asks for. What a
move keeps is kept by every event. -/
namespace Sangtachi.Lobby

open Sangtachi.BigEndian Sangtachi.Packet Sangtachi.Peer Sangtachi.Tunnel

/-- An attempt is under way that is not set up yet. -/
def Due (L : Lobby) : Prop :=
  L.stage ≠ .lobby ∧ (L.role = .player ∧ L.pairs = [] ∨ L.role = .host ∧ L.stage ≠ .settled)

instance instDecidableDue : DecidablePred Due := fun _ => inferInstanceAs (Decidable (_ ∧ _))

/-- An action that begins no attempt, opens no session, writes no record, and touches neither a
timer nor a query. -/
def isPlain : LobbyAction → Bool
  | .logLine _ event _ => event ≠ "attempt.start"
  | .printLine _ | .guideLine _ | .startPunch _ | .leaveRoom | .assignAddress
    _ | .setRosterPeers _ => true
  | _ => false

/-- The lobbies differ in what no move looks at. -/
structure Alike (L L' : Lobby) : Prop where
  actions : L'.out.actions = L.out.actions
  stage : L'.stage = L.stage
  role : L'.role = L.role
  pairs : L'.pairs = L.pairs
  armed : L'.armed = L.armed

abbrev Openings := List (LobbyRole × U32)

/-- The indices are how many queries a move starts, the sessions it records as not opened, and those
it opens. -/
inductive Move : ℕ → Openings → Openings → Lobby → Lobby → Prop where
  | alike (L L') : Alike L L' → Move 0 [] [] L L'
  | tells (L a) : isPlain a = true → Move 0 [] [] L (L.push a)
  | arms (L name delayMs) : ownsTimer name = true → Move 0 [] [] L (L.arm name delayMs)
  | disarms (L name) : Move 0 [] [] L (L.disarm name)
  | forgets (L name) : Move 0 [] [] L (L.forgetArmed name)
  | begins (L role) : L.stage = .lobby → L.pairs = [] → role ≠ .none →
      Move 0 [] [] L (Lobby.log { L with role := role, stage := .issuing } .info "attempt.start"
        [⟨"role", ascii role.token⟩])
  | goes (L stage) : L.stage ≠ .lobby → L.stage ≠ .settled → stage ≠ .lobby → stage ≠ .settled →
      Move 0 [] [] L { L with stage := stage }
  | queries (L : Lobby) : Move 1 [] [] L (L.push .startStun)
  | settles (L own) : L.Due → L.role = .host →
    Move 0 [] [] L (Lobby.push { L with stage := .settled } (.startRoster own))
  | meets (L pair request setupBaseMs) : L.Due → L.role = .player → pair.peerId = request.peerId →
      Move 0 [] [(L.role, pair.peerId)] L
        ((setPair { L with stage := .settled } pair).push
          (.openSession request pair.name L.role setupBaseMs))
  | admits (L pair request setupBaseMs) : L.role = .host → L.stage = .settled →
    pair.peerId = request.peerId →
      Move 0 [] [(L.role, pair.peerId)] L
        ((L.setPair pair).push (.openSession request pair.name L.role setupBaseMs))
  | pairs (L pairs) : L.role = .host ∨ (pairs = [] ↔ L.pairs = []) →
    Move 0 [] [] L { L with pairs := pairs }
  | ends (L reason leaveRoom) : ¬L.Due → Move 0 [] [] L (L.endAttempt reason leaveRoom)
  | unfinished (L result reason leaveRoom) : L.stage ≠ .lobby → result ≠ "OK" →
      Move 0 [] [] L ((L.recordUnfinished result).endAttempt reason leaveRoom)
  | unopened (L peerId result) : L.role ≠ .none → result ≠ "OK" →
    Move 0 [(L.role, peerId)] [] L (L.push (.recordAttempt L.role (some peerId) result))

inductive Moves : ℕ → Openings → Openings → Lobby → Lobby → Prop where
  | refl (L : Lobby) : Moves 0 [] [] L L
  | tail {q q' : ℕ} {r o r' o' : Openings} {L M L' : Lobby} :
      Moves q r o L M → Move q' r' o' M L' → Moves (q + q') (r ++ r') (o ++ o') L L'

variable {L L' L₀ M : Lobby} {io : LobbyIo} {q : ℕ} {r o : Openings}

theorem Moves.move (h : Moves q r o L₀ L) (m : Move 0 [] [] L L') : Moves q r o L₀ L' := by
  have hmoves := h.tail m
  rwa [List.append_nil, List.append_nil] at hmoves

theorem Moves.query (h : Moves q r o L₀ L) : Moves (q + 1) r o L₀ (L.push .startStun) := by
  have hmoves := h.tail (.queries L)
  rwa [List.append_nil, List.append_nil] at hmoves

theorem Moves.opening (h : Moves q r o L₀ L) {x : LobbyRole × U32} (m : Move 0 [] [x] L L') :
    Moves q r (o ++ [x]) L₀ L' := by
  have hmoves := h.tail m
  rwa [List.append_nil] at hmoves

theorem Moves.refused (h : Moves q r o L₀ L) {x : LobbyRole × U32} (m : Move 0 [x] [] L L') :
    Moves q (r ++ [x]) o L₀ L' := by
  have hmoves := h.tail m
  rwa [List.append_nil o] at hmoves

theorem Moves.alike (h : Moves q r o L₀ L) (k : Alike L L') : Moves q r o L₀ L' :=
  h.move (.alike L L' k)

theorem Moves.push (h : Moves q r o L₀ L) {a : LobbyAction} (ha : isPlain a = true) :
    Moves q r o L₀ (L.push a) :=
  h.move (.tells L a ha)

theorem Moves.log (h : Moves q r o L₀ L) (level : LogLevel) {event : String}
    (hevent : event ≠ "attempt.start") (fields : List LogField) :
    Moves q r o L₀ (L.log level event fields) :=
  h.push (decide_eq_true hevent)

theorem Moves.when {M : Lobby} {c : Prop} [Decidable c] (h : Moves q r o L₀ L)
    (k : Moves q r o L₀ M) :
    Moves q r o L₀ (if c then L else M) := by
  split_ifs
  · exact h
  · exact k

theorem Moves.guide (h : Moves q r o L₀ L) (lines : List Bytes) :
    Moves q r o L₀ (L.pushAll (lines.map .guideLine)) := by
  induction lines generalizing L with
  | nil => exact h.alike ⟨List.append_nil _, rfl, rfl, rfl, rfl⟩
  | cons line lines ih =>
    refine (ih (h.push (a := .guideLine line) rfl)).alike ⟨?_, rfl, rfl, rfl, rfl⟩
    exact (List.append_assoc L.out.actions [.guideLine line] _).symm

theorem Moves.arm (h : Moves q r o L₀ L) {name : TimerName} (hname : ownsTimer name = true)
    (delayMs : Millis) :
    Moves q r o L₀ (L.arm name delayMs) := h.move (.arms L name delayMs hname)

theorem Moves.disarm (h : Moves q r o L₀ L) (name : TimerName) : Moves q r o L₀ (L.disarm name) :=
  h.move (.disarms L name)

theorem Alike.due (h : Alike L L') : L'.Due ↔ L.Due := by
  unfold Due
  rw [h.stage, h.role, h.pairs]

theorem disarm_due (L : Lobby) (name : TimerName) : (L.disarm name).Due ↔ L.Due := by
  unfold Lobby.disarm
  split_ifs
  · exact Iff.rfl
  · exact Iff.rfl

theorem disarm_place (L : Lobby) (name : TimerName) :
    (L.disarm name).stage = L.stage ∧ (L.disarm name).role = L.role := by
  unfold Lobby.disarm
  split_ifs
  · exact ⟨rfl, rfl⟩
  · exact ⟨rfl, rfl⟩

/-! ## The end of an attempt -/

theorem failed_event : "session.failed" ≠ "attempt.start" := by decide

theorem token_ok (code : FailCode) : code.token ≠ "OK" := by cases code <;> decide

theorem endAttempt_stage (L : Lobby) (reason : String) (leaveRoom : Bool) :
    (L.endAttempt reason leaveRoom).stage = .lobby := by
  unfold Lobby.endAttempt
  dsimp only
  split_ifs
  all_goals rfl

theorem endAttempt_due (L : Lobby) (reason : String) (leaveRoom : Bool) :
    ¬(L.endAttempt reason leaveRoom).Due :=
  fun hdue => hdue.1 (endAttempt_stage L reason leaveRoom)

theorem not_due_host (hrole : L.role = .host) (hstage : L.stage = .settled) : ¬L.Due := by
  rintro ⟨-, ⟨hplayer, -⟩ | ⟨-, hnot⟩⟩
  · rw [hrole] at hplayer
    cases hplayer
  · exact hnot hstage

theorem Moves.endRoom (h : Moves q r o L₀ L) (hrole : L.role = .host)
    (hstage : L.stage = .settled) :
    Moves q r o L₀ L.endRoom ∧ ¬L.endRoom.Due := by
  unfold Lobby.endRoom
  split_ifs with hended
  · exact ⟨h, not_due_host hrole hstage⟩
  have hended' : Moves q r o L₀ { L with roomEnded := true } := h.alike ⟨rfl, rfl, rfl, rfl, rfl⟩
  have hprinted := hended'.push (a := .printLine (failLine .controlPlaneExchangeFailed noPeer)) rfl
  have hlogged := hprinted.log .error failed_event
    [⟨"code", ascii FailCode.controlPlaneExchangeFailed.token⟩]
  dsimp only
  generalize hM : ({ L with roomEnded := true }.push
    (.printLine (failLine .controlPlaneExchangeFailed noPeer))).sessionFailed
    .controlPlaneExchangeFailed = M
  have hmoves : Moves q r o L₀ M := hM ▸ hlogged
  have hquiet : Moves q r o L₀ { M with reporting := false, reportDue := false } :=
    hmoves.alike ⟨rfl, rfl, rfl, rfl, rfl⟩
  have hnot :
    ¬(Lobby.disarm { M with reporting := false, reportDue := false } .hostReport).Due := by
    rw [disarm_due]
    subst hM
    exact not_due_host hrole hstage
  have hstopped := hquiet.disarm .hostReport
  generalize Lobby.disarm { M with reporting := false, reportDue := false } .hostReport =
    N at hstopped hnot ⊢
  split_ifs
  · exact ⟨hstopped.move (.ends N _ _ hnot), endAttempt_due N _ _⟩
  · exact ⟨hstopped, hnot⟩

theorem Moves.fail (h : Moves q r o L₀ L) (hstage : L.stage ≠ .lobby) (code : FailCode) :
    Moves q r o L₀ (L.fail code) ∧ ¬(L.fail code).Due := by
  unfold Lobby.fail
  split_ifs with hhost hcode
  · exact h.endRoom hhost.1 hhost.2
  · have hlogged := (h.push (a := .printLine (failLine code noPeer)) rfl).log .error failed_event
      [⟨"code", ascii code.token⟩]
    exact ⟨hlogged.move (.unfinished _ _ _ _ hstage (token_ok code)), endAttempt_due _ _ _⟩
  · exact ⟨(h.push (a := .printLine (failLine code noPeer)) rfl).move
      (.unfinished _ _ _ _ hstage (token_ok code)), endAttempt_due _ _ _⟩

/-! ## Requests -/

theorem sendOrDeferRequest_alike (L : Lobby) : Alike L L.sendOrDeferRequest := by
  unfold Lobby.sendOrDeferRequest
  split_ifs
  · exact ⟨rfl, rfl, rfl, rfl, rfl⟩
  · exact ⟨rfl, rfl, rfl, rfl, rfl⟩

theorem withToken_alike (L : Lobby) (build : PeerToken → Option Body) :
    Alike L (L.withToken build).2 := by
  unfold Lobby.withToken
  split
  · exact ⟨rfl, rfl, rfl, rfl, rfl⟩
  · exact ⟨rfl, rfl, rfl, rfl, rfl⟩

theorem Moves.sendHostReport (h : Moves q r o L₀ L) (hstage : L.stage ≠ .lobby) :
    Moves q r o L₀ L.sendHostReport := by
  unfold Lobby.sendHostReport
  refine Moves.when (h.alike ⟨rfl, rfl, rfl, rfl, rfl⟩) ?_
  have hundue : Moves q r o L₀ { L with reportDue := false } := h.alike ⟨rfl, rfl, rfl, rfl, rfl⟩
  have htoken := withToken_alike { L with reportDue := false } fun token =>
    hostReportBody L.roomId L.peerId token L.departed L.confirm
  dsimp only
  split
  case h_1 M heq =>
    rw [heq] at htoken
    exact ((hundue.alike htoken).fail (by rw [htoken.stage]; exact hstage) _).1
  case h_2 body M heq =>
    rw [heq] at htoken
    have hname : ownsTimer .hostReport = true := rfl
    have harmed := fun delayMs => ((hundue.alike htoken).disarm .hostReport).arm hname delayMs
    exact (harmed _).alike ⟨rfl, rfl, rfl, rfl, rfl⟩

theorem sendHostReport_due (hrole : L.role = .host) (hstage : L.stage = .settled) :
    ¬L.sendHostReport.Due := by
  have hnot := not_due_host hrole hstage
  unfold Lobby.sendHostReport
  split_ifs
  · exact (Alike.due (L := L) ⟨rfl, rfl, rfl, rfl, rfl⟩).not.mpr hnot
  have htoken := withToken_alike { L with reportDue := false } fun token =>
    hostReportBody L.roomId L.peerId token L.departed L.confirm
  dsimp only
  split
  case h_1 M heq =>
    rw [heq] at htoken
    refine ((Moves.refl M).fail ?_ _).2
    rw [htoken.stage]
    show L.stage ≠ .lobby
    rw [hstage]
    decide
  case h_2 body M heq =>
    rw [heq] at htoken
    have hdisarmed : ¬(M.disarm .hostReport).Due :=
      (disarm_due M _).not.mpr (htoken.due.not.mpr hnot)
    intro hdue
    apply hdisarmed
    unfold Lobby.arm Lobby.submit at hdue
    dsimp only at hdue
    split_ifs at hdue
    all_goals exact hdue

theorem Moves.runDue (h : Moves q r o L₀ L) : Moves q r o L₀ L.runDue := by
  unfold Lobby.runDue
  split_ifs with hidle
  · exact h
  · exact h.alike (sendOrDeferRequest_alike L)
  · refine h.sendHostReport fun hlobby => hidle (.inr ?_)
    simp [inLobby, hlobby]
  · exact h

theorem Moves.retryOrFail (h : Moves q r o L₀ L) (hstage : L.stage ≠ .lobby) :
    Moves q r o L₀ L.retryOrFail := by
  unfold Lobby.retryOrFail
  exact (h.arm rfl _).when (h.fail hstage _).1

/-! ## Active pairs -/

/-- The last session with the peer was opened, and has not ended. -/
def Paired (L : Lobby) (peerId : U32) : Prop := (L.findPair peerId).any (·.active) = true

instance instDecidablePaired (L : Lobby) (peerId : U32) : Decidable (L.Paired peerId) :=
  instDecidableEqBool _ _

/-- The sessions are with different peers, and all of them active. -/
structure Opened (L : Lobby) (k : Openings) : Prop where
  nodup : (k.map (·.2)).Nodup
  paired : ∀ x ∈ k, x.1 = L.role ∧ L.Paired x.2

theorem opened_nil (L : Lobby) : Opened L [] := ⟨List.nodup_nil, nofun⟩

theorem Paired.same {peerId : U32} (h : L.Paired peerId) (hpairs : L'.pairs = L.pairs) :
    L'.Paired peerId := by
  unfold Paired findPair at h ⊢
  rw [hpairs]
  exact h

theorem Opened.same {k : Openings} (h : L.Opened k) (hrole : L'.role = L.role)
    (hpairs : L'.pairs = L.pairs) : L'.Opened k :=
  ⟨h.nodup, fun x hx => ⟨(h.paired x hx).1.trans hrole.symm, (h.paired x hx).2.same hpairs⟩⟩

theorem Paired.found {peerId : U32} (h : L.Paired peerId) : ∃ pair, L.findPair peerId = some pair ∧
    pair.active = true := by
  unfold Paired at h
  cases hpair : L.findPair peerId with
  | none =>
    rw [hpair] at h
    cases h
  | some pair =>
    rw [hpair] at h
    exact ⟨pair, rfl, h⟩

theorem Paired.active {peerId : U32} (h : L.Paired peerId) : L.activePairs ≠ 0 := by
  obtain ⟨pair, hpair, hactive⟩ := h.found
  exact (List.countP_pos_iff.mpr ⟨pair, (findPair_some hpair).1, hactive⟩).ne'

theorem setPair_paired (L : Lobby) (pair : Pair) {peerId : U32} (h : L.Paired peerId)
    (hother : peerId ≠ pair.peerId) :
    (L.setPair pair).Paired peerId := by
  unfold Paired findPair at h ⊢
  unfold setPair
  have hkept : (L.pairs.filter (·.peerId ≠ pair.peerId)).find? (·.peerId = peerId) =
    L.pairs.find? (·.peerId = peerId) := by
    rw [List.find?_filter]
    congr 1
    funext x
    by_cases hx : x.peerId = peerId
    · simp [hx, hother]
    · simp [hx]
  rw [List.find?_append, hkept]
  cases hfound : L.pairs.find? (·.peerId = peerId) with
  | none =>
    rw [hfound] at h
    cases h
  | some pair =>
    rw [hfound] at h
    exact h

theorem setPair_self (L : Lobby) (pair : Pair) (hactive : pair.active = true) :
    (L.setPair pair).Paired pair.peerId := by
  unfold Paired findPair setPair
  have hnone : (L.pairs.filter (·.peerId ≠ pair.peerId)).find? (·.peerId = pair.peerId) = none := by
    simp [List.find?_eq_none]
  rw [List.find?_append, hnone]
  simp [hactive]

theorem endRoom_pairs (hactive : L.activePairs ≠ 0) :
    L.endRoom.pairs = L.pairs ∧ L.endRoom.role = L.role := by
  unfold Lobby.endRoom
  split_ifs
  · exact ⟨rfl, rfl⟩
  dsimp only
  generalize hM : ({ (Lobby.sessionFailed (Lobby.push { L with roomEnded := true } (.printLine
    (failLine .controlPlaneExchangeFailed noPeer))) .controlPlaneExchangeFailed) with
      reporting := false, reportDue := false } : Lobby) = M
  have hpairs : M.pairs = L.pairs ∧ M.role = L.role := by
    subst hM
    exact ⟨rfl, rfl⟩
  obtain ⟨out, -, hdisarm⟩ := disarm_eq M .hostReport
  rw [hdisarm, if_neg]
  · exact hpairs
  · unfold activePairs at hactive ⊢
    rw [hpairs.1]
    exact hactive

theorem sendHostReport_pairs (hrole : L.role = .host) (hstage : L.stage = .settled)
    (hactive : L.activePairs ≠ 0) :
    L.sendHostReport.pairs = L.pairs ∧ L.sendHostReport.role = L.role := by
  unfold Lobby.sendHostReport
  split_ifs
  · exact ⟨rfl, rfl⟩
  have htoken : ∃ undefined, (Lobby.withToken { L with reportDue := false } fun token =>
      hostReportBody L.roomId L.peerId token L.departed L.confirm).2 =
        { L with reportDue := false, undefined := undefined } := by
    unfold withToken
    split
    · exact ⟨_, rfl⟩
    · exact ⟨_, rfl⟩
  obtain ⟨undefined, htoken⟩ := htoken
  dsimp only
  split
  case h_1 M heq =>
    rw [heq] at htoken
    obtain rfl := htoken
    unfold Lobby.fail
    rw [if_pos ⟨hrole, hstage⟩]
    exact endRoom_pairs (L := { L with reportDue := false, undefined := undefined }) hactive
  case h_2 body M heq =>
    rw [heq] at htoken
    obtain rfl := htoken
    obtain ⟨out, -, hdisarm⟩ :=
      disarm_eq { L with reportDue := false, undefined := undefined } .hostReport
    rw [hdisarm]
    dsimp only
    generalize (if maxOthers ≤ L.lastPeerCount then
      hostReportFullMs else hostReportOpenMs) = delayMs
    generalize hN : ({ L with
      reportDue := false, undefined := undefined, armed := L.armed.filter (· ≠ .hostReport), out :=
        out } : Lobby) = N
    obtain ⟨out', -, harm⟩ := arm_eq N .hostReport delayMs
    rw [harm]
    subst hN
    exact ⟨rfl, rfl⟩

theorem runDue_pairs (hreports : L.reporting = true → L.role = .host ∧ L.stage = .settled)
    (hactive : L.activePairs ≠ 0) :
    L.runDue.pairs = L.pairs ∧ L.runDue.role = L.role := by
  unfold Lobby.runDue
  split_ifs with hidle hrequest hreport
  · exact ⟨rfl, rfl⟩
  · exact ⟨(sendOrDeferRequest_alike L).pairs, (sendOrDeferRequest_alike L).role⟩
  · obtain ⟨hhost, hstage⟩ := hreports hreport.2
    exact sendHostReport_pairs hhost hstage hactive
  · exact ⟨rfl, rfl⟩

theorem Opened.grow {k : Openings} (h : L.Opened k) (peer : PeerView) (setupBaseMs : Millis)
    (hnew : ¬L.Paired peer.peerId) :
    (L.openPair peer setupBaseMs).Opened (k ++ [(L.role, peer.peerId)]) := by
  obtain ⟨out, -, -, hopened⟩ := openPair_eq L peer setupBaseMs
  have hset : Opened (L.setPair { peerId := peer.peerId, name := peer.name })
    (k ++ [(L.role, peer.peerId)]) := by
    constructor
    · rw [List.map_append, List.map_singleton, ← List.concat_eq_append]
      refine h.nodup.concat ?_
      intro hmem
      obtain ⟨x, hx, hid⟩ := List.mem_map.mp hmem
      have hpaired := (h.paired x hx).2
      rw [hid] at hpaired
      exact hnew hpaired
    · intro x hx
      rcases List.mem_append.mp hx with hold | hlast
      · obtain ⟨hrole, hpaired⟩ := h.paired x hold
        refine ⟨hrole, setPair_paired L _ hpaired fun heq => hnew ?_⟩
        rw [heq] at hpaired
        exact hpaired
      · rw [List.mem_singleton.mp hlast]
        exact ⟨rfl, setPair_self L { peerId := peer.peerId, name := peer.name } rfl⟩
  rw [hopened]
  exact hset.same rfl rfl

/-- The sessions that a reply opens are active when it is done with. -/
def Admits (L : Lobby) (k : Openings) : Prop :=
  k ≠ [] → L.Opened k ∧ (L.reporting = true → L.role = .host ∧ L.stage = .settled)

theorem Admits.runDue {k : Openings} (h : L.Admits k) : L.runDue.Opened k := by
  cases hk : k with
  | nil => exact opened_nil _
  | cons x rest =>
    obtain ⟨hopened, hreports⟩ := h (hk ▸ List.cons_ne_nil x rest)
    have hactive := (hopened.paired x (hk ▸ List.mem_cons_self)).2.active
    obtain ⟨hpairs, hrole⟩ := runDue_pairs hreports hactive
    exact hk ▸ hopened.same hrole hpairs

/-! ## Commands -/

theorem Moves.startAttempt (h : Moves q r o L₀ L) {role : LobbyRole} (room : Bytes)
    (hstage : L.stage = .lobby) (hpairs : L.pairs = []) (hrole : role ≠ .none) :
    Moves q r o L₀ (L.startAttempt io role room) := by
  have hstarted := h.move (.begins L role hstage hpairs hrole)
  have hissuing : (Lobby.log { L with role := role, stage := .issuing } .info "attempt.start"
      [⟨"role", ascii role.token⟩]).stage ≠ .lobby := nofun
  unfold Lobby.startAttempt
  dsimp only
  generalize ({ L with role := role, stage := .issuing } : Lobby).log .info "attempt.start"
    [⟨"role", ascii role.token⟩] = M at hstarted hissuing ⊢
  cases io.nonce with
  | none => exact (hstarted.fail hissuing _).1
  | some nonce =>
    dsimp only
    generalize (if role = .host then (Op.createRoom, createRoomBody nonce M.name)
      else (Op.joinRoom, joinRoomBody room nonce M.name)) = request
    obtain ⟨op, body⟩ := request
    have hop : Moves q r o L₀ { M with requestOp := op } := hstarted.alike ⟨rfl, rfl, rfl, rfl, rfl⟩
    cases body with
    | none => exact (hop.fail hissuing _).1
    | some body =>
      have hbody : Moves q r o L₀ { M with requestOp := op, requestBody := body, tries := 0 } :=
        hstarted.alike ⟨rfl, rfl, rfl, rfl, rfl⟩
      exact hbody.alike (sendOrDeferRequest_alike _)

theorem Moves.reject (h : Moves q r o L₀ L) (reason : String) (kind : CommandKind) :
    Moves q r o L₀ (L.reject reason kind) :=
  (h.log _ (by decide) _).push rfl

theorem Moves.onCommand (h : Moves q r o L₀ L) (hcleared : L.stage = .lobby → L.pairs = [])
    (command : LobbyCommand) :
    Moves q r o L₀ (L.onCommand io command) := by
  have hstart : Moves q r o L₀ (L.onStartCommand io command) := by
    unfold Lobby.onStartCommand
    by_cases hlobby : L.stage = .lobby
    · split_ifs
      · exact h.reject _ _
      · exact h.reject _ _
      · exact h.reject _ _
      · exact h.startAttempt _ hlobby (hcleared hlobby) nofun
      · exact h.reject _ _
      · exact h.reject _ _
      · exact h.startAttempt _ hlobby (hcleared hlobby) nofun
    · rw [if_pos (by simp [inLobby, hlobby])]
      exact h.reject _ _
  unfold Lobby.onCommand
  cases command.kind with
  | help => exact (h.reject _ _).when ((h.guide _).when (h.guide _))
  | leave =>
    dsimp only
    unfold onLeave
    split_ifs with hlobby
    · exact h.reject _ _
    · exact h.reject _ _
    · exact h.move
        (.unfinished L _ _ _ (fun hstage => hlobby (by simp [inLobby, hstage])) (by decide))
  | name =>
    have hnamed : Moves q r o L₀ { L with name := command.argument } :=
      h.alike ⟨rfl, rfl, rfl, rfl, rfl⟩
    dsimp only
    unfold onName
    refine (h.reject _ _).when
      ((h.reject _ _).when ((h.reject _ _).when ((h.reject _ _).when (Moves.push ?_ rfl))))
    exact hnamed.log _ (by decide) _
  | host => exact hstart
  | join => exact hstart

/-! ## Pairs -/

theorem Moves.punch (h : Moves q r o L₀ L) (peerId : U32) (delay : ℤ) :
    Moves q r o L₀
      (if delay ≤ 0 then L.push (.startPunch peerId) else L.arm (.punch peerId) delay.toNat) :=
  (h.push rfl).when (h.arm rfl _)

/-- The end of a pair ends the attempt of a player, and leaves a host in its room. -/
theorem Moves.close (h : Moves q r o L₀ L) (hstage : L.stage = .settled) (hrole : L.role ≠ .none)
    (hdue : ¬L.Due) (peerId : U32) (reason : String) :
    Moves q r o L₀
      (if L.role = .player then L.endAttempt reason else (L.noteDeparted peerId).reportClosed) := by
  split_ifs with hplayer
  · exact h.move (.ends _ _ _ hdue)
  have hhost : L.role = .host := by
    cases hL : L.role with
    | none => exact absurd hL hrole
    | host => rfl
    | player => exact absurd hL hplayer
  have hnoted : Alike L (L.noteDeparted peerId) := by
    unfold noteDeparted
    split_ifs
    · exact ⟨rfl, rfl, rfl, rfl, rfl⟩
    · exact ⟨rfl, rfl, rfl, rfl, rfl⟩
  have hmoves := h.alike hnoted
  have hhost' := hnoted.role.trans hhost
  have hstage' := hnoted.stage.trans hstage
  generalize L.noteDeparted peerId = N at hmoves hhost' hstage' ⊢
  have hlobby : N.stage ≠ .lobby := by rw [hstage']; decide
  have hreported : Moves q r o L₀ (if N.reporting = true then N.sendHostReport else N) ∧
      ¬(if N.reporting = true then N.sendHostReport else N).Due := by
    split_ifs
    · exact ⟨hmoves.sendHostReport hlobby, sendHostReport_due hhost' hstage'⟩
    · exact ⟨hmoves, not_due_host hhost' hstage'⟩
  unfold reportClosed
  exact (hreported.1.move (.ends _ _ _ hreported.2)).when hreported.1

theorem Moves.closePair (h : Moves q r o L₀ L)
    (hsettled : L.pairs ≠ [] → L.stage = .settled ∧ L.role ≠ .none) (peerId : U32)
    (failure : Option FailCode) : Moves q r o L₀ (L.closePair peerId failure) := by
  unfold Lobby.closePair
  cases hpair : L.findPair peerId with
  | none => exact h
  | some pair =>
    obtain ⟨hmem, -⟩ := findPair_some hpair
    obtain ⟨hstage, hrole⟩ := hsettled (List.ne_nil_of_mem hmem)
    refine h.when ?_
    have hdeactivated : Moves q r o L₀ (L.deactivate peerId) :=
      h.move (.pairs L _ (.inr List.map_eq_nil_iff))
    have hnot : ¬(L.deactivate peerId).Due := by
      rintro ⟨-, ⟨-, hnone⟩ | ⟨-, hearly⟩⟩
      · exact List.ne_nil_of_mem hmem (List.map_eq_nil_iff.mp hnone)
      · exact hearly hstage
    have hdisarmed := hdeactivated.disarm (.punch peerId)
    have hdue := (disarm_due _ (.punch peerId)).not.mpr hnot
    obtain ⟨hstage', hrole'⟩ := disarm_place (L.deactivate peerId) (.punch peerId)
    have hsettled := hstage'.trans hstage
    have hnone := hrole'.trans_ne hrole
    cases failure with
    | none => exact hdisarmed.close hsettled hnone hdue _ _
    | some code => exact (hdisarmed.push rfl).close hsettled hnone hdue _ _

/-! ## Replies -/

theorem Moves.takeIssued (h : Moves q r o L₀ L) (hstage : L.stage = .issuing) (issued : Issued) :
    Moves (q + 1) r o L₀ (L.takeIssued io issued) := by
  unfold Lobby.takeIssued
  dsimp only
  generalize hM : Lobby.push _ (.assignAddress _) = M
  have hmoves : Moves q r o L₀ M ∧ M.stage = .issuing := by
    subst hM
    have hpushes : ∀ {M : Lobby} {a₁ a₂ a₃ a₄}, Moves q r o L₀ M → isPlain a₁ = true →
      isPlain a₂ = true → isPlain a₃ = true →
        isPlain a₄ = true → Moves q r o L₀ ((((M.push a₁).push a₂).push a₃).push a₄) :=
      fun hM h₁ h₂ h₃ h₄ => (((hM.push h₁).push h₂).push h₃).push h₄
    exact ⟨hpushes (h.alike ⟨rfl, rfl, rfl, rfl, rfl⟩) rfl rfl rfl rfl, hstage⟩
  clear hM
  obtain ⟨hmoves, hissuing⟩ := hmoves
  have hjoined : ∀ {N : Lobby}, Moves q r o L₀ N → N.stage = .issuing →
      Moves (q + 1) r o L₀ ({ N with stage := .stun, stunStarted := io.now }.push .startStun) := by
    intro N hN hstage
    have hgone : Moves q r o L₀ { N with stage := .stun } :=
      hN.move (.goes N .stun (by rw [hstage]; decide) (by rw [hstage]; decide) nofun nofun)
    have htimed : Moves q r o L₀ { N with stage := .stun, stunStarted := io.now } :=
      hgone.alike ⟨rfl, rfl, rfl, rfl, rfl⟩
    exact htimed.query
  have hreporting : Moves q r o L₀ { M with reporting := true } :=
    hmoves.alike ⟨rfl, rfl, rfl, rfl, rfl⟩
  have harmed : (Lobby.arm { M with reporting := true } .hostReport hostReportOpenMs).stage =
    .issuing := by
    unfold Lobby.arm
    dsimp only
    split_ifs
    · exact hissuing
    · exact hissuing
  split_ifs
  · exact hjoined (hreporting.arm rfl _) harmed
  · exact hjoined hmoves hissuing

theorem Moves.takeRegistered (h : Moves q r o L₀ L) (hstage : L.stage = .registering)
    (registered : Registered) : Moves q r o L₀ (L.takeRegistered registered) := by
  have hlogged : Moves q r o L₀ (if registered.rejected ≠ 0 then
      L.log .warn "control.candidates_rejected"
        [⟨"rejected", decimal registered.rejected.toNat⟩] else L) :=
    Moves.when (h.log _ (by decide) _) h
  have hsame : (if registered.rejected ≠ 0 then
      L.log .warn "control.candidates_rejected"
        [⟨"rejected", decimal registered.rejected.toNat⟩] else L).stage = .registering ∧
      (if registered.rejected ≠ 0 then
      L.log .warn "control.candidates_rejected"
        [⟨"rejected", decimal registered.rejected.toNat⟩] else L).role = L.role := by
    split_ifs
    · exact ⟨hstage, rfl⟩
    · exact ⟨hstage, rfl⟩
  unfold Lobby.takeRegistered
  generalize (if registered.rejected ≠ 0 then
    L.log .warn "control.candidates_rejected" [⟨"rejected", decimal registered.rejected.toNat⟩] else
      L) = M at hlogged hsame ⊢
  have hempty : Moves q r o L₀ { M with requestBody := .empty, tries := 0 } :=
    hlogged.alike ⟨rfl, rfl, rfl, rfl, rfl⟩
  have hlobby : M.stage ≠ .lobby := by rw [hsame.1]; decide
  have hnot : M.stage ≠ .settled := by rw [hsame.1]; decide
  dsimp only
  split_ifs with hhost
  · exact hempty.move (.settles _ _ ⟨hlobby, .inr ⟨hhost, hnot⟩⟩ hhost)
  · have hpolling :
      Moves q r o L₀ { M with requestBody := .empty, tries := 0, stage := .polling } :=
      hempty.move (.goes _ .polling hlobby hnot nofun nofun)
    exact (hpolling.arm rfl _).arm rfl _

theorem Moves.meet (h : Moves q r o L₀ L) (hdue : L.Due) (hrole : L.role = .player)
    (peer : PeerView) (setupBaseMs : Millis) :
    Moves q r (o ++ [(L.role, peer.peerId)]) L₀
      (openPair { L with stage := .settled } peer setupBaseMs) := by
  have hopened := fun request hpeer =>
    h.opening
      (.meets L { peerId := peer.peerId, name := peer.name } request setupBaseMs hdue hrole hpeer)
  exact (hopened _ rfl).punch peer.peerId _

theorem Moves.takeHostPeer (h : Moves q r o L₀ L) (hdue : L.Due) (hrole : L.role = .player)
    (hquiet : L.reporting = false) (peer : PeerView) :
    ∃ k, Moves q r (o ++ k) L₀ (L.takeHostPeer peer) ∧
    (L.takeHostPeer peer).Admits k := by
  have hseen : Moves q r o L₀ { L with hostPeer := some peer.peerId } :=
    h.alike ⟨rfl, rfl, rfl, rfl, rfl⟩
  unfold Lobby.takeHostPeer
  dsimp only
  split_ifs
  · have hlogged :
      Moves q r o L₀ (Lobby.log { L with hostPeer := some peer.peerId } .info "control.peers"
        (controlPeersFields peer)) := hseen.log _ (by decide) _
    generalize hM : Lobby.log { L with hostPeer := some peer.peerId } .info "control.peers"
      (controlPeersFields peer) = M
      at hlogged ⊢
    have hplace : M.Due ∧ M.role = .player ∧ M.reporting = false := hM ▸ ⟨hdue, hrole, hquiet⟩
    clear hM
    have hmoves := (hlogged.disarm .deadline).disarm .poll
    have hdue' := (disarm_due _ .poll).mpr ((disarm_due M .deadline).mpr hplace.1)
    have hplace' : ((M.disarm .deadline).disarm .poll).role = .player ∧
        ((M.disarm .deadline).disarm .poll).reporting = false := by
      obtain ⟨out, -, hdisarm⟩ := disarm_eq M .deadline
      obtain ⟨out', -, hdisarm'⟩ := disarm_eq (M.disarm .deadline) .poll
      rw [hdisarm', hdisarm]
      exact hplace.2
    generalize (M.disarm .deadline).disarm .poll = N at hmoves hdue' hplace' ⊢
    obtain ⟨hrole', hquiet'⟩ := hplace'
    have hfree : ¬Paired { N with stage := .settled } peer.peerId := by
      have hnone : N.pairs = [] :=
        (hdue'.2.resolve_right fun hhost => absurd (hhost.1.symm.trans hrole') nofun).2
      unfold Paired findPair
      rw [hnone]
      exact Bool.false_ne_true
    obtain ⟨out, -, -, hopened⟩ := openPair_eq { N with stage := .settled } peer N.stunStarted
    refine ⟨_, hmoves.meet hdue' hrole' peer _, fun _ => ⟨(opened_nil _).grow peer _ hfree, ?_⟩⟩
    rw [hopened]
    exact fun hreporting => absurd (hquiet'.symm.trans hreporting) nofun
  · refine ⟨[], ?_, fun hnone => absurd rfl hnone⟩
    rw [List.append_nil]
    exact hseen.arm rfl _

theorem Moves.noteListed {s : Lobby × List U32} (h : Moves q r o L₀ s.1) (announced : List U32)
    (peer : PeerView) :
    Moves q r o L₀ (noteListed io announced s peer).1 ∧
    (Lobby.noteListed io announced s peer).1.stage = s.1.stage ∧
      (Lobby.noteListed io announced s peer).1.role = s.1.role := by
  obtain ⟨L, stillHere⟩ := s
  have hseen : Alike L (if L.firstSeen.any (·.1 = peer.peerId) then L
      else { L with firstSeen := L.firstSeen ++ [(peer.peerId, io.now)] }) := by
    split_ifs
    · exact ⟨rfl, rfl, rfl, rfl, rfl⟩
    · exact ⟨rfl, rfl, rfl, rfl, rfl⟩
  unfold Lobby.noteListed
  dsimp only
  generalize (if L.firstSeen.any (·.1 = peer.peerId) then L
    else { L with firstSeen := L.firstSeen ++ [(peer.peerId, io.now)] }) = M at hseen ⊢
  have hconfirm :
    Alike M (if !peer.ready then { M with confirm := M.confirm ++ [peer.peerId] } else M) := by
    split_ifs
    · exact ⟨rfl, rfl, rfl, rfl, rfl⟩
    · exact ⟨rfl, rfl, rfl, rfl, rfl⟩
  generalize (if !peer.ready then { M with confirm := M.confirm ++ [peer.peerId] } else M) =
    N at hconfirm ⊢
  have hmoves : Moves q r o L₀ N := (h.alike hseen).alike hconfirm
  have hstage := hconfirm.stage.trans hseen.stage
  have hrole := hconfirm.role.trans hseen.role
  split_ifs
  · exact ⟨hmoves, hstage, hrole⟩
  · exact ⟨hmoves.log _ (by decide) _, hstage, hrole⟩
  · exact ⟨hmoves, hstage, hrole⟩

theorem Moves.openListed (h : Moves q r o L₀ L) (hrole : L.role = .host)
    (hstage : L.stage = .settled) (peer : PeerView) :
    ∃ k, Moves q r (o ++ k) L₀ (L.openListed peer) ∧ (L.openListed peer).role = .host ∧
      (L.openListed peer).stage = .settled ∧ ∀ k₀, L.Opened k₀ →
      (L.openListed peer).Opened (k₀ ++ k) := by
  unfold Lobby.openListed
  split_ifs with hready
  · have hopened := fun request setupBaseMs hpeer =>
      h.opening (.admits L { peerId := peer.peerId, name := peer.name } request setupBaseMs
        hrole hstage hpeer)
    have hnew : ¬L.Paired peer.peerId := by
      unfold Paired
      rw [hready.2]
      exact Bool.false_ne_true
    refine ⟨_, (hopened _ _ rfl).punch peer.peerId _, ?_⟩
    obtain ⟨out, -, -, heq⟩ := openPair_eq L peer (L.firstSeenAt peer.peerId)
    have hplace : (L.openPair peer (L.firstSeenAt peer.peerId)).role = .host ∧
        (L.openPair peer (L.firstSeenAt peer.peerId)).stage = .settled := by
      rw [heq]
      exact ⟨hrole, hstage⟩
    exact ⟨hplace.1, hplace.2, fun k₀ hold => hold.grow peer _ hnew⟩
  · exact ⟨[], by rwa [List.append_nil], hrole, hstage, fun k₀ hold => by rwa [List.append_nil]⟩

theorem Moves.takeReport (h : Moves q r o L₀ L) (hrole : L.role = .host) (peers : List PeerView)
    (carried : List U32) :
    ∃ k, Moves q r (o ++ k) L₀ (L.takeReport io peers carried) ∧
      (L.takeReport io peers carried).Admits k := by
  have hnoted : ∀ (rest : List PeerView) (announced : List U32) {s : Lobby × List U32},
    Moves q r o L₀ s.1 → s.1.role = .host →
      Moves q r o L₀ (rest.foldl (Lobby.noteListed io announced) s).1 ∧
        (rest.foldl (Lobby.noteListed io announced) s).1.role = .host := by
    intro rest announced
    induction rest with
    | nil => exact fun hs hhost => ⟨hs, hhost⟩
    | cons peer rest ih =>
      intro s hs hhost
      obtain ⟨hnext, -, hsame⟩ := hs.noteListed announced peer
      exact ih hnext (hsame.trans hhost)
  have hopened : ∀ (rest : List PeerView) {o : Openings} {M : Lobby}, Moves q r o L₀ M →
    M.role = .host → M.stage = .settled →
      ∃ k, Moves q r (o ++ k) L₀ (rest.foldl Lobby.openListed M) ∧
        (rest.foldl Lobby.openListed M).role = .host ∧
        (rest.foldl Lobby.openListed M).stage = .settled ∧
        ∀ k₀, M.Opened k₀ → (rest.foldl Lobby.openListed M).Opened (k₀ ++ k) := by
    intro rest
    induction rest with
    | nil =>
      exact fun {o M} hM hhost hsettled =>
        ⟨[], by rwa [List.append_nil], hhost, hsettled, fun k₀ hold => by rwa [List.append_nil]⟩
    | cons peer rest ih =>
      intro o M hM hhost hsettled
      obtain ⟨k, hnext, hhost', hsettled', hadmits⟩ := hM.openListed hhost hsettled peer
      obtain ⟨k', hrest, hhost'', hsettled'', hadmits'⟩ := ih hnext hhost' hsettled'
      rw [List.append_assoc] at hrest
      refine ⟨k ++ k', hrest, hhost'', hsettled'', fun k₀ hold => ?_⟩
      rw [← List.append_assoc]
      exact hadmits' _ (hadmits k₀ hold)
  have hcarried : Moves q r o L₀
      { L with departed := L.departed.filter (· ∉
        carried), lastPeerCount := peers.length, confirm := [] } :=
    h.alike ⟨rfl, rfl, rfl, rfl, rfl⟩
  have hfold := hnoted peers L.announced (s := (_, [])) hcarried hrole
  unfold Lobby.takeReport
  dsimp only
  generalize peers.foldl (Lobby.noteListed io L.announced) _ = s at hfold ⊢
  have hannounced : Moves q r o L₀ { s.1 with announced := s.2 } :=
    hfold.1.alike ⟨rfl, rfl, rfl, rfl, rfl⟩
  have hforgot :
    Moves q r o L₀ (forgetGone { s.1 with announced := s.2 } (peers.map PeerView.peerId)) :=
    (hannounced.move (.pairs _ _ (.inl hfold.2))).alike ⟨rfl, rfl, rfl, rfl, rfl⟩
  have hhost : (forgetGone { s.1 with announced := s.2 } (peers.map PeerView.peerId)).role =
    .host := hfold.2
  generalize forgetGone { s.1 with announced := s.2 } (peers.map PeerView.peerId) =
    G at hforgot hhost ⊢
  split_ifs with hstage
  · exact ⟨[], by rwa [List.append_nil], fun hnone => absurd rfl hnone⟩
  · obtain ⟨k, hmoves, hhost', hsettled, hadmits⟩ :=
      hopened peers (hforgot.push (a := .setRosterPeers _) rfl) hhost (not_not.mp hstage)
    exact ⟨k, hmoves, fun _ => ⟨hadmits [] (opened_nil _), fun _ => ⟨hhost', hsettled⟩⟩⟩

theorem Moves.takeReply (h : Moves q r o L₀ L) (hsound : Sound L) (op : Op) (pending : Pending)
    {reply : ReplyBody} (hissued : reply.index = 0 → L.stage = .issuing)
    (hregistered : reply.index = 1 → L.stage = .registering)
    (hpeers : reply.index = 2 → L.stage = .polling)
    (hreport : reply.index = 3 → L.reporting = true) :
    ∃ n ≤ 1, ∃ k, Moves (q + n) r (o ++ k) L₀ (L.takeReply io op pending reply) ∧
      (L.takeReply io op pending reply).Admits k := by
  have hnone : ∀ {n : ℕ} {M : Lobby}, n ≤ 1 → Moves (q + n) r o L₀ M →
    ∃ n ≤ 1, ∃ k, Moves (q + n) r (o ++ k) L₀ M ∧ M.Admits k := by
    intro n M hn hmoves
    exact ⟨n, hn, [], by rwa [List.append_nil], fun hnot => absurd rfl hnot⟩
  have hlogged : ∀ outcome failure, Moves q r o L₀ (L.resultLine op outcome failure) :=
    fun _ _ => h.log _ (by decide) _
  have hunready : ∀ stage : LobbyStage, stage ≠ .lobby → L.stage = stage → L.stage ≠ .lobby :=
    fun _ hne heq => heq ▸ hne
  cases reply with
  | issued r =>
    have hstage := hissued rfl
    have hlobby := hunready .issuing nofun hstage
    unfold Lobby.takeReply Lobby.onIssued
    dsimp only
    split_ifs
    · exact hnone (Nat.zero_le 1) ((hlogged r.outcome r.failure).retryOrFail hlobby)
    split
    · exact hnone le_rfl ((hlogged r.outcome r.failure).takeIssued hstage _)
    · exact hnone (Nat.zero_le 1) ((hlogged r.outcome r.failure).fail hlobby _).1
  | registered r =>
    have hstage := hregistered rfl
    have hlobby := hunready .registering nofun hstage
    unfold Lobby.takeReply Lobby.onRegistered
    refine hnone (Nat.zero_le 1) (Moves.when ((hlogged r.outcome r.failure).retryOrFail hlobby) ?_)
    split
    · exact (hlogged r.outcome r.failure).takeRegistered hstage _
    · exact ((hlogged r.outcome r.failure).fail hlobby _).1
  | peers r =>
    have hstage := hpeers rfl
    have hlobby := hunready .polling nofun hstage
    have hplayer := hsound.polls hstage
    have hdue : L.Due := ⟨hlobby, .inl ⟨hplayer, hsound.early (by rw [hstage]; decide)⟩⟩
    have hquiet : L.reporting = false := by
      by_contra hnot
      have hhost := (hsound.reports (by simpa using hnot)).1
      cases hplayer.symm.trans hhost
    unfold Lobby.takeReply Lobby.onPeers
    dsimp only
    split_ifs
    · exact hnone (Nat.zero_le 1)
        ((hlogged (asPlayerReply r).outcome (asPlayerReply r).failure).arm rfl _)
    split
    · exact ⟨0, Nat.zero_le 1,
        (hlogged (asPlayerReply r).outcome (asPlayerReply r).failure).takeHostPeer hdue
          hplayer hquiet _⟩
    · exact hnone (Nat.zero_le 1)
        ((hlogged (asPlayerReply r).outcome (asPlayerReply r).failure).fail hlobby _).1
  | hostReport r =>
    obtain ⟨hhost, -, hstage⟩ := hsound.reports (hreport rfl)
    have hlobby : L.stage ≠ .lobby := by
      rcases hstage with hstage | hstage | hstage <;> rw [hstage] <;> decide
    unfold Lobby.takeReply Lobby.onHostReport
    dsimp only
    split_ifs
    · exact hnone (Nat.zero_le 1) ((hlogged r.outcome r.failure).fail hlobby _).1
    split
    · exact ⟨0, Nat.zero_le 1, (hlogged r.outcome r.failure).takeReport hhost _ _⟩
    · exact hnone (Nat.zero_le 1) (hlogged r.outcome r.failure)

theorem Moves.onReply (h : Moves q r o L₀ L) (hinv : Invariant L) (io : LobbyIo)
    (reply : ControlReply) :
    ∃ n ≤ 1, ∃ k, Moves (q + n) r (o ++ k) L₀ (L.onReply io reply) ∧
      (L.onReply io reply).Opened k := by
  have hnone : ∀ {M : Lobby}, Moves q r o L₀ M → ∃ n ≤ 1, ∃ k, Moves (q + n) r (o ++ k) L₀ M ∧
    M.Opened k := by
    intro M hmoves
    exact ⟨0, Nat.zero_le 1, [], by rwa [List.append_nil], opened_nil M⟩
  unfold Lobby.onReply
  cases hpending : L.pending with
  | none => exact hnone (h.log _ (by decide) _)
  | some p =>
    have hfree : Moves q r o L₀ { L with pending := none } := h.alike ⟨rfl, rfl, rfl, rfl, rfl⟩
    dsimp only
    split_ifs with hmatch hlive horphan
    · refine hnone (Moves.runDue (Moves.fail (hfree.log _ (by decide) _) ?_ _).1)
      intro hlobby
      simp [(hinv.orphaned p hpending).mpr hlobby] at hlive
    · exact hnone (Moves.runDue (hfree.log _ (by decide) _))
    · exact hnone (hfree.log _ (by decide) _)
    · have hindex : reply.reply.index = replyIndex p.op := not_not.mp (not_or.mp hmatch).2
      have hlobby : L.stage ≠ .lobby :=
        fun hlobby => horphan ((hinv.orphaned p hpending).mpr hlobby)
      obtain ⟨hissued, hregistered, hpeers, hreport⟩ := hinv.stageOf hpending hlobby
      rw [hindex.symm] at hissued hregistered hpeers hreport
      obtain ⟨n, hn, k, hmoves, hadmits⟩ :=
        hfree.takeReply hinv.toSound.unpend reply.op p (fun h => (hissued h).1)
        (fun h => (hregistered h).1) hpeers (fun h => hinv.reported p hpending hlobby (hreport h))
      exact ⟨n, hn, k, hmoves.runDue, hadmits.runDue⟩

/-! ## The other events -/

theorem Moves.onSubmitDropped (h : Moves q r o L₀ L) (hinv : Invariant L) :
    Moves q r o L₀ L.onSubmitDropped := by
  unfold Lobby.onSubmitDropped
  cases hpending : L.pending with
  | none => exact h
  | some p =>
    have hfree : Moves q r o L₀ { L with pending := none } := h.alike ⟨rfl, rfl, rfl, rfl, rfl⟩
    dsimp only
    split_ifs with hlive
    · refine (hfree.fail ?_ _).1
      intro hlobby
      simp [(hinv.orphaned p hpending).mpr hlobby] at hlive
    · exact hfree

theorem Moves.onStunDone (h : Moves q r o L₀ L) (ok : Bool) (mappings : List StunMapping) :
    Moves q r o L₀ (L.onStunDone io ok mappings) := by
  unfold Lobby.onStunDone
  by_cases hstage : L.stage = .stun
  · rw [if_neg (not_not_intro hstage)]
    have hfresh : Moves q r o L₀ { L with stage := .registering } :=
      h.move (.goes L .registering (by rw [hstage]; decide) (by rw [hstage]; decide) nofun nofun)
    have htoken := withToken_alike { L with stage := .registering } fun token =>
      registerCandidateBody L.roomId L.peerId token (io.collect (mappings.map (·.mapped)))
    dsimp only
    refine Moves.when (hfresh.fail nofun _).1 ?_
    split
    case h_1 M heq =>
      rw [heq] at htoken
      exact ((hfresh.alike htoken).fail (by rw [htoken.stage]; exact nofun) _).1
    case h_2 body M heq =>
      rw [heq] at htoken
      have hbody : Moves q r o L₀
        { M with requestOp := .registerCandidate, requestBody := body, tries := 0 } :=
        (hfresh.alike htoken).alike ⟨rfl, rfl, rfl, rfl, rfl⟩
      exact hbody.alike (sendOrDeferRequest_alike _)
  · rw [if_pos hstage]
    exact h

theorem Invariant.settled (hinv : Invariant L) (hpairs : L.pairs ≠ []) :
    L.stage = .settled ∧ L.role ≠ .none := by
  have hstage : L.stage = .settled := by
    by_contra hnot
    exact hpairs (hinv.early hnot)
  exact ⟨hstage, hinv.role (by rw [hstage]; decide)⟩

theorem Moves.onSessionEvent (h : Moves q r o L₀ L) (hinv : Invariant L) (event : SessionEvent) :
    Moves q r o L₀ (L.onSessionEvent event) := by
  unfold Lobby.onSessionEvent
  refine Moves.when ?_ (h.when (h.closePair hinv.settled _ _))
  split
  · exact h
  · exact (h.push rfl).when h

/-- The session of an active pair did not open. -/
def unopened (L : Lobby) : LobbyEvent → Openings
  | .sessionOpenFailed peerId => if L.Paired peerId then [(L.role, peerId)] else []
  | _ => []

theorem Moves.onSessionOpenFailed (h : Moves q r o L₀ L) (hinv : Invariant L) (peerId : U32) :
    Moves q (r ++ L.unopened (.sessionOpenFailed peerId)) o L₀ (L.onSessionOpenFailed peerId) := by
  unfold unopened Lobby.onSessionOpenFailed
  dsimp only
  split_ifs with hpaired
  · obtain ⟨pair, hpair, hactive⟩ := hpaired.found
    have hmem := (findPair_some hpair).1
    have hsettled := hinv.settled (List.ne_nil_of_mem hmem)
    have hlogged := fun fields => (h.log .error failed_event fields).refused
      (.unopened _ peerId _ hsettled.2 (token_ok .controlPlaneExchangeFailed))
    have hrenamed := fun fields => (hlogged fields).move (.pairs _ (L.pairs.map fun p =>
      if p.peerId = peerId then { p with name := [] } else p) (.inr List.map_eq_nil_iff))
    rw [hpair]
    dsimp only
    rw [if_neg (show ¬(!pair.active) = true by simp [hactive])]
    exact Moves.closePair (hrenamed _) (fun _ => hsettled) _ _
  · rw [List.append_nil]
    unfold Paired at hpaired
    cases hpair : L.findPair peerId with
    | none => exact h
    | some pair =>
      rw [hpair] at hpaired
      dsimp only
      rw [if_pos (show (!pair.active) = true by simpa using hpaired)]
      exact h

theorem Moves.onTimer (h : Moves q r o L₀ L) (hinv : Invariant L) (name : TimerName) :
    Moves q r o L₀ (L.onTimer name) := by
  have hforgot : Moves q r o L₀ (L.forgetArmed name) := h.move (.forgets L name)
  unfold Lobby.onTimer
  refine h.when ?_
  dsimp only
  cases name with
  | retry => exact (hforgot.alike (sendOrDeferRequest_alike _)).when hforgot
  | poll =>
    dsimp only
    unfold onPollTimer
    have htoken := withToken_alike (L.forgetArmed .poll) fun token =>
      getPeersBody (L.forgetArmed .poll).roomId (L.forgetArmed .poll).peerId token
    split_ifs with hpolling
    · split
      case h_1 M heq =>
        rw [heq] at htoken
        exact ((hforgot.alike htoken).fail (by rw [htoken.stage, hpolling.1]; decide) _).1
      case h_2 body M heq =>
        rw [heq] at htoken
        exact (hforgot.alike htoken).alike ⟨rfl, rfl, rfl, rfl, rfl⟩
    · exact hforgot
  | deadline =>
    dsimp only
    split_ifs with hpolling
    · exact (hforgot.fail (by rw [hpolling]; decide) _).1
    · exact hforgot
  | hostReport =>
    dsimp only
    split_ifs with hreporting
    · refine hforgot.sendHostReport ?_
      obtain ⟨-, -, hstage⟩ := hinv.reports hreporting
      intro hlobby
      rcases hstage with hstage | hstage | hstage <;> cases hlobby.symm.trans hstage
    · exact hforgot
  | punch peerId => exact hforgot.push rfl
  | stunRetry server => exact hforgot
  | stunDeadline server => exact hforgot
  | other text => exact hforgot

def isReply : LobbyEvent → Bool
  | .reply _ => true
  | _ => false

/-- Only a reply starts a query, one at most, and only a reply opens sessions. -/
theorem step_moves (hinv : Invariant L) (io : LobbyIo) (event : LobbyEvent) :
    ∃ n ≤ (isReply event).toNat, ∃ k, (isReply event = false → k = []) ∧
      (L.step io event).Opened k ∧
      Moves n (L.unopened event) k { L with out := {} } (L.step io event) := by
  have hinv' : Invariant { L with out := {} } := hinv.same (sameStage_out L _)
  have hfresh : Moves 0 [] [] { L with out := {} } { L with out := {} } := .refl _
  unfold step
  cases event with
  | start => exact ⟨0, le_rfl, [], fun _ => rfl, opened_nil _, hfresh.guide _⟩
  | command c =>
    exact ⟨0, le_rfl, [], fun _ => rfl, opened_nil _,
      hfresh.onCommand (fun hlobby => (hinv.cleared hlobby).pairs) c⟩
  | reply r =>
    obtain ⟨n, hn, k, hmoves, hopened⟩ := hfresh.onReply hinv' io r
    rw [Nat.zero_add] at hmoves
    exact ⟨n, hn, k, nofun, hopened, hmoves⟩
  | submitDropped => exact ⟨0, le_rfl, [], fun _ => rfl, opened_nil _, hfresh.onSubmitDropped hinv'⟩
  | stunDone ok mappings =>
    exact ⟨0, le_rfl, [], fun _ => rfl, opened_nil _, hfresh.onStunDone ok mappings⟩
  | timer name => exact ⟨0, le_rfl, [], fun _ => rfl, opened_nil _, hfresh.onTimer hinv' name⟩
  | session e => exact ⟨0, le_rfl, [], fun _ => rfl, opened_nil _, hfresh.onSessionEvent hinv' e⟩
  | sessionOpenFailed peerId =>
    exact ⟨0, le_rfl, [], fun _ => rfl, opened_nil _, hfresh.onSessionOpenFailed hinv' peerId⟩
  | shutdown =>
    refine ⟨0, le_rfl, [], fun _ => rfl, opened_nil _, ?_⟩
    unfold LobbyEvent.apply onShutdown
    dsimp only
    split_ifs with hlobby
    · exact hfresh
    · exact hfresh.move
        (.unfinished _ _ _ _ (fun hstage => hlobby (by simpa [inLobby] using hstage)) (by decide))

end Sangtachi.Lobby
