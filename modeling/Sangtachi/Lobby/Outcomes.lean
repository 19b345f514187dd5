import Sangtachi.Lobby.Lobby

/-! # What the helpers of the lobby leave

Each helper of the lobby as an equation: the lobby it leaves, with actions that open no session
and submit nothing unless the equation says so. -/
namespace Sangtachi.Lobby

open Sangtachi.BigEndian Sangtachi.Packet Sangtachi.Peer Sangtachi.Tunnel

variable {L : Lobby} {b b' : Batch}

def sessionsOf (as : List LobbyAction) : List U32 :=
  as.filterMap fun
    | .openSession request _ _ _ => some request.peerId
    | _ => none

/-- The actions `b'` submit what `b` did, and open the same sessions. -/
structure Quiet (b b' : Batch) : Prop where
  request : b'.request = b.request
  sessions : sessionsOf b'.actions = sessionsOf b.actions

theorem Quiet.refl (b : Batch) : Quiet b b := ⟨rfl, rfl⟩

theorem Quiet.trans {b'' : Batch} (h : Quiet b b') (k : Quiet b' b'') : Quiet b b'' :=
  ⟨k.request.trans h.request, k.sessions.trans h.sessions⟩

theorem quiet_append {as : List LobbyAction} (h : sessionsOf as = []) :
    Quiet b { b with actions := b.actions ++ as } := by
  refine ⟨rfl, ?_⟩
  unfold sessionsOf at h ⊢
  rw [List.filterMap_append, h, List.append_nil]

theorem push_quiet {a : LobbyAction} (h : sessionsOf [a] = []) : Quiet L.out (L.push a).out :=
  quiet_append h

/-- `L'` differs from `L` in quiet actions only. -/
def Says (L L' : Lobby) : Prop := ∃ out, Quiet L.out out ∧ L' = { L with out := out }

theorem Says.refl (L : Lobby) : Says L L := ⟨L.out, .refl _, rfl⟩

theorem Says.push {M : Lobby} {a : LobbyAction} (h : Says L M) (ha : sessionsOf [a] = []) :
    Says L (M.push a) := by
  obtain ⟨out, hquiet, rfl⟩ := h
  exact ⟨_, hquiet.trans (push_quiet (L := { L with out := out }) ha), rfl⟩

theorem Says.guide {M : Lobby} (h : Says L M) (lines : List Bytes) :
    Says L (M.pushAll (lines.map .guideLine)) := by
  obtain ⟨out, hquiet, rfl⟩ := h
  refine ⟨_,
    hquiet.trans (@quiet_append _ (lines.map .guideLine) (List.filterMap_eq_nil_iff.mpr ?_)), rfl⟩
  intro a ha
  obtain ⟨line, -, rfl⟩ := List.mem_map.mp ha
  rfl

theorem Says.when {M N : Lobby} {c : Prop} [Decidable c] (h : Says L M) (k : Says L N) :
    Says L (if c then M else N) := by
  split_ifs
  · exact h
  · exact k

theorem Says.trans {M : Lobby} (h : Says L M) {N : Lobby} (k : Says M N) : Says L N := by
  obtain ⟨out, hquiet, rfl⟩ := h
  obtain ⟨out', hquiet', rfl⟩ := k
  exact ⟨out', hquiet.trans hquiet', rfl⟩

/-! ## Timers -/

/-- The armed timers once `name` is armed. -/
def withTimer (armed : List TimerName) (name : TimerName) : List TimerName :=
  if name ∈ armed then armed else armed ++ [name]

theorem mem_withTimer {armed : List TimerName} {name n : TimerName} :
    n ∈ withTimer armed name ↔ n ∈ armed ∨ n = name := by
  unfold withTimer
  split_ifs with harmed
  · constructor
    · exact .inl
    · rintro (h | rfl)
      · exact h
      · exact harmed
  · rw [List.mem_append, List.mem_singleton]

theorem nodup_withTimer {armed : List TimerName} (h : armed.Nodup) (name : TimerName) :
    (withTimer armed name).Nodup := by
  unfold withTimer
  split_ifs with harmed
  · exact h
  · rw [← List.concat_eq_append]
    exact h.concat harmed

theorem arm_eq (L : Lobby) (name : TimerName) (delayMs : Millis) : ∃ out, Quiet L.out out ∧
    L.arm name delayMs = { L with armed := withTimer L.armed name, out := out } := by
  unfold arm withTimer
  split_ifs
  · exact ⟨_, (push_quiet (L := L) rfl).trans (push_quiet (L := L.push _) rfl), rfl⟩
  · exact ⟨_, push_quiet (L := L) rfl, rfl⟩

theorem disarm_eq (L : Lobby) (name : TimerName) :
    ∃ out, Quiet L.out out ∧
      L.disarm name = { L with armed := L.armed.filter (· ≠ name), out := out } := by
  unfold disarm
  split_ifs with harmed
  · exact ⟨_, push_quiet (L := L) rfl, rfl⟩
  · have hkept : L.armed.filter (· ≠ name) = L.armed := by
      apply List.filter_eq_self.mpr
      intro n hn
      simpa using fun heq : n = name => harmed (heq ▸ hn)
    exact ⟨L.out, .refl _, by rw [hkept]⟩

theorem foldl_disarm (names : List TimerName) (L : Lobby) : ∃ out, Quiet L.out out ∧
    names.foldl disarm L = { L with armed := L.armed.filter (· ∉ names), out := out } := by
  induction names generalizing L with
  | nil => exact ⟨L.out, .refl _, by simp⟩
  | cons name rest ih =>
    obtain ⟨out, hquiet, hdisarm⟩ := disarm_eq L name
    obtain ⟨out', hquiet', hrest⟩ := ih (L.disarm name)
    rw [hdisarm] at hquiet'
    refine ⟨out', hquiet.trans hquiet', ?_⟩
    rw [List.foldl_cons, hrest, hdisarm]
    simp only [List.filter_filter, List.mem_cons, not_or]
    congr 1
    apply List.filter_congr
    intro n _
    by_cases hname : n = name <;> by_cases hin : n ∈ rest <;> simp [hname, hin]

theorem disarmAll_eq (L : Lobby) :
    ∃ out, Quiet L.out out ∧ L.disarmAll = { L with armed := [], out := out } := by
  obtain ⟨out, hquiet, h⟩ := foldl_disarm L.armed.reverse L
  refine ⟨out, hquiet, h.trans ?_⟩
  congr 1
  apply List.filter_eq_nil_iff.mpr
  intro n hn
  simpa using hn

/-! ## The end of an attempt -/

/-- The lobby after an attempt: its name, and the request under way, whose reply means nothing now.
-/
def left (L : Lobby) (out : Batch) : Lobby where
  name := L.name
  pending := L.pending.map fun p => { p with orphaned := true }
  requestOp := L.requestOp
  undefined := L.undefined
  out := out

theorem endAttempt_eq (L : Lobby) (reason : String) (leaveRoom : Bool) :
    ∃ out, Quiet L.out out ∧ L.endAttempt reason leaveRoom = L.left out := by
  obtain ⟨out, hquiet, hdisarmed⟩ := disarmAll_eq L
  have hstun : Says { L with armed := [], out := out }
      (if L.stage = .stun then L.disarmAll.push .cancelStun else L.disarmAll) := by
    rw [hdisarmed]
    exact ((Says.refl _).push rfl).when (.refl _)
  obtain ⟨out₁, hquiet₁, hstun⟩ := hstun
  have hroom :
    Says (L.left out₁) (if leaveRoom = true then (L.left out₁).push .leaveRoom else L.left out₁) :=
    ((Says.refl _).push rfl).when (.refl _)
  have hlogged := hroom.push (a := .logLine .info "attempt.end" [⟨"reason", ascii reason⟩]) rfl
  have hended : Says (L.left out₁) (L.endAttempt reason leaveRoom) := by
    unfold endAttempt
    dsimp only
    rw [hstun]
    exact (hlogged.guide _).when hlogged
  obtain ⟨out₂, hquiet₂, hended⟩ := hended
  exact ⟨out₂, (hquiet.trans hquiet₁).trans hquiet₂, hended⟩

theorem recordUnfinished_eq (L : Lobby) (result : String) :
    ∃ out, Quiet L.out out ∧ L.recordUnfinished result = { L with out := out } := by
  unfold recordUnfinished
  split_ifs
  · exact ⟨_, push_quiet (L := L) rfl, rfl⟩
  · exact ⟨_, push_quiet (L := L) rfl, rfl⟩
  · exact ⟨L.out, .refl _, rfl⟩

theorem unfinished_eq (L : Lobby) (result reason : String) (leaveRoom : Bool) :
    ∃ out, Quiet L.out out ∧
      (L.recordUnfinished result).endAttempt reason leaveRoom = L.left out := by
  obtain ⟨out, hquiet, h⟩ := recordUnfinished_eq L result
  obtain ⟨out', hquiet', h'⟩ := endAttempt_eq (L.recordUnfinished result) reason leaveRoom
  rw [h] at hquiet' h'
  exact ⟨out', hquiet.trans hquiet', by rw [h, h']; rfl⟩

/-- The room of the host has ended: the reports stop, or the attempt ends as well. -/
inductive RoomEnded (L : Lobby) : Lobby → Prop where
  | known : L.roomEnded = true → RoomEnded L L
  | stopped (out : Batch) : L.roomEnded = false → 0 < L.activePairs → Quiet L.out out →
      RoomEnded L { L with
        roomEnded := true
        reporting := false
        reportDue := false
        armed := L.armed.filter (· ≠ .hostReport)
        out := out }
  | left (out : Batch) : L.roomEnded = false → Quiet L.out out → RoomEnded L (L.left out)

theorem endRoom_cases (L : Lobby) : RoomEnded L L.endRoom := by
  unfold endRoom
  by_cases hended : L.roomEnded = true
  · rw [if_pos hended]
    exact .known hended
  · rw [if_neg hended]
    have hnot : L.roomEnded = false := by simpa using hended
    dsimp only
    generalize hM : ({ ((({ L with roomEnded := true } : Lobby).push
      (.printLine (failLine .controlPlaneExchangeFailed noPeer))).sessionFailed
      .controlPlaneExchangeFailed) with
        reporting := false, reportDue := false } : Lobby) = M
    have hquiet : Quiet L.out M.out := by
      subst hM
      exact (push_quiet (L := L) rfl).trans (push_quiet (L := L.push _) rfl)
    obtain ⟨out, hdisarmed, hdisarm⟩ := disarm_eq M .hostReport
    by_cases hactive : (M.disarm .hostReport).activePairs = 0
    · rw [if_pos hactive]
      obtain ⟨out', hended', h⟩ := endAttempt_eq (M.disarm .hostReport) "room_ended" true
      rw [h]
      rw [hdisarm] at hended' ⊢
      subst hM
      exact .left out' hnot (hquiet.trans (hdisarmed.trans hended'))
    · rw [if_neg hactive]
      rw [hdisarm] at hactive ⊢
      subst hM
      exact .stopped out hnot (Nat.pos_of_ne_zero hactive) (hquiet.trans hdisarmed)

/-- A failure ends the attempt, except that of a host that has set up its room. -/
inductive Failed (L : Lobby) : Lobby → Prop where
  | room (L' : Lobby) : L.role = .host → L.stage = .settled → RoomEnded L L' → Failed L L'
  | left (out : Batch) : ¬(L.role = .host ∧ L.stage = .settled) → Quiet L.out out →
    Failed L (L.left out)

theorem fail_cases (L : Lobby) (code : FailCode) : Failed L (L.fail code) := by
  unfold fail
  by_cases hsettled : L.role = .host ∧ L.stage = .settled
  · rw [if_pos hsettled]
    exact .room _ hsettled.1 hsettled.2 (endRoom_cases L)
  · rw [if_neg hsettled]
    dsimp only
    have hprinted : Quiet L.out (L.push (.printLine (failLine code noPeer))).out := push_quiet rfl
    by_cases hcode : code ≠ .stunDiscoveryFailed
    · rw [if_pos hcode]
      obtain ⟨out, hquiet, h⟩ :=
        unfinished_eq ((L.push (.printLine (failLine code noPeer))).sessionFailed code)
        code.token "failed" true
      rw [h]
      exact .left out hsettled ((hprinted.trans (push_quiet (L := L.push _) rfl)).trans hquiet)
    · rw [if_neg hcode]
      obtain ⟨out, hquiet, h⟩ :=
        unfinished_eq (L.push (.printLine (failLine code noPeer))) code.token "failed" true
      rw [h]
      exact .left out hsettled (hprinted.trans hquiet)

/-! ## Requests -/

/-- What becomes of the report of a host that has its token: it waits for the request under way, it
is refused, or it goes out. -/
inductive Reported (L : Lobby) (token : PeerToken) : Lobby → Prop where
  | deferred : L.pending.isSome = true → Reported L token { L with reportDue := true }
  | refused (L' : Lobby) : L.pending = none →
      hostReportBody L.roomId L.peerId token L.departed L.confirm = none →
      Failed { L with reportDue := false } L' → Reported L token L'
  | sent (body : Body) (out : Batch) : L.pending = none →
      hostReportBody L.roomId L.peerId token L.departed L.confirm = some body →
      out.request = some ⟨.hostReport, body, L.peerId⟩ →
      sessionsOf out.actions = sessionsOf L.out.actions →
      Reported L token { L with
        reportDue := false
        pending := some { op := .hostReport, departed := L.departed }
        armed := withTimer (L.armed.filter (· ≠ .hostReport)) .hostReport
        out := out }

theorem withToken_some {token : PeerToken} (htoken : L.token = some token)
    (build : PeerToken → Option Body) :
    L.withToken build = (build token, L) := by
  unfold withToken
  rw [htoken]

theorem sendHostReport_cases {token : PeerToken} (htoken : L.token = some token) :
    Reported L token L.sendHostReport := by
  unfold sendHostReport
  by_cases hpending : L.pending.isSome = true
  · rw [if_pos hpending]
    exact .deferred hpending
  · rw [if_neg hpending]
    have hnone : L.pending = none := by simpa using hpending
    dsimp only
    rw [withToken_some (L := { L with reportDue := false }) htoken]
    cases hbody : hostReportBody L.roomId L.peerId token L.departed L.confirm with
    | none => exact .refused _ hnone hbody (fail_cases _ _)
    | some body =>
      dsimp only
      obtain ⟨out, hquiet, hdisarm⟩ := disarm_eq { L with reportDue := false } .hostReport
      generalize (if maxOthers ≤
        ({ L with reportDue := false }.disarm .hostReport).lastPeerCount then hostReportFullMs
        else hostReportOpenMs) = delayMs
      obtain ⟨out', hquiet', harm⟩ :=
        arm_eq ({ L with reportDue := false }.disarm .hostReport) .hostReport delayMs
      rw [harm]
      rw [hdisarm] at hquiet' ⊢
      exact .sent body { out' with request := some ⟨.hostReport, body, L.peerId⟩ } hnone hbody rfl
        (hquiet'.sessions.trans hquiet.sessions)

/-! ## Pairs -/

def punchArmed (L : Lobby) (peer : PeerView) : List TimerName :=
  if (peer.punchDelayMs.toNat : ℤ) - peer.elapsedSinceReadyMs ≤ 0 then L.armed
  else withTimer L.armed (.punch peer.peerId)

theorem openPair_eq (L : Lobby) (peer : PeerView) (setupBaseMs : Millis) : ∃ out,
    out.request = L.out.request ∧
    sessionsOf out.actions = sessionsOf L.out.actions ++ [peer.peerId] ∧
    L.openPair peer setupBaseMs = { L with
      pairs :=
        L.pairs.filter (·.peerId ≠ peer.peerId) ++ [{ peerId := peer.peerId, name := peer.name }]
      armed := punchArmed L peer
      out := out } := by
  unfold openPair
  dsimp only
  generalize hP : L.setPair { peerId := peer.peerId, name := peer.name } = P
  generalize hM : P.push (.openSession
    { localPeerId := P.peerId
      localVirtualIp := P.localVip
      peerId := peer.peerId
      peerVirtualIp := peer.virtualIp
      candidates := peer.candidates.map (·.endpoint)
      peerIsHost := P.role = .player } peer.name
      P.role setupBaseMs) = M
  have hsessions : sessionsOf M.out.actions = sessionsOf L.out.actions ++ [peer.peerId] := by
    subst hM hP
    exact List.filterMap_append
  have hrequest : M.out.request = L.out.request := by
    subst hM hP
    rfl
  have harms : M.armed = L.armed := by
    subst hM hP
    rfl
  have hpaired : ∀ armed out, { M with armed := armed, out := out } = { L with
      pairs :=
        L.pairs.filter (·.peerId ≠ peer.peerId) ++ [{ peerId := peer.peerId, name := peer.name }]
      armed := armed
      out := out } := by
    subst hM hP
    exact fun _ _ => rfl
  clear hM hP
  unfold punchArmed
  by_cases hdelay : (peer.punchDelayMs.toNat : ℤ) - peer.elapsedSinceReadyMs ≤ 0
  · have hquiet : Quiet M.out (M.push (.startPunch peer.peerId)).out := push_quiet rfl
    refine ⟨_, hquiet.request.trans hrequest, hquiet.sessions.trans hsessions, ?_⟩
    rw [if_pos hdelay, if_pos hdelay, ← hpaired, ← harms]
    rfl
  · obtain ⟨out, hquiet, harm⟩ := arm_eq M (.punch peer.peerId)
      ((peer.punchDelayMs.toNat : ℤ) - peer.elapsedSinceReadyMs).toNat
    refine ⟨out, hquiet.request.trans hrequest, hquiet.sessions.trans hsessions, ?_⟩
    rw [if_neg hdelay, if_neg hdelay, harm, hpaired, harms]

/-- The ids to be reported once the session with `peerId` has ended. -/
def departedWith (L : Lobby) (peerId : U32) : List U32 :=
  if peerId ∉ L.departed ∧ L.departed.length < maxOthers then L.departed ++ [peerId] else L.departed

/-- The lobby of a host once the session with `peerId` has ended. -/
def closed (L : Lobby) (peerId : U32) (out : Batch) : Lobby :=
  { L.deactivate peerId with
    armed := L.armed.filter (· ≠ .punch peerId)
    departed := L.departedWith peerId
    out := out }

/-- The end of an active pair takes a player back to the lobby. A host stays in its room and
reports, except that the last pair of a room that has ended takes it back as well. -/
inductive Closed (L : Lobby) (peerId : U32) : Lobby → Prop where
  | player (out : Batch) : L.role = .player → Quiet L.out out → Closed L peerId (L.left out)
  | reported (out : Batch) (token : PeerToken) (L' : Lobby) : L.role ≠ .player →
    L.reporting = true →
      L.token = some token → Quiet L.out out → Reported (L.closed peerId out) token L' →
      Closed L peerId L'
  | stays (out : Batch) : L.role ≠ .player → L.reporting = false → Quiet L.out out →
      (L.roomEnded = true → 0 < (L.deactivate peerId).activePairs) →
      Closed L peerId (L.closed peerId out)
  | ended (out : Batch) : L.role ≠ .player → L.roomEnded = true → Quiet L.out out →
    Closed L peerId (L.left out)

theorem RoomEnded.alive {L' : Lobby} (h : RoomEnded L L') (hended : L.roomEnded = false) :
    L'.roomEnded = true → 0 < L'.activePairs := by
  cases h with
  | known hknown => exact fun _ => absurd (hended.symm.trans hknown) (by decide)
  | stopped out _ hactive _ => exact fun _ => hactive
  | left out _ _ => exact fun hfalse => absurd hfalse Bool.false_ne_true

theorem Failed.alive {L' : Lobby} (h : Failed L L') (hended : L.roomEnded = false) :
    L'.roomEnded = true → 0 < L'.activePairs := by
  cases h with
  | room _ _ _ hroom => exact hroom.alive hended
  | left out _ _ => exact fun hfalse => absurd hfalse Bool.false_ne_true

theorem Reported.alive {token : PeerToken} {L' : Lobby} (h : Reported L token L')
    (hended : L.roomEnded = false) :
    L'.roomEnded = true → 0 < L'.activePairs := by
  cases h with
  | deferred _ => exact fun htrue => absurd (hended.symm.trans htrue) (by decide)
  | refused _ _ _ hfailed => exact hfailed.alive hended
  | sent body out _ _ _ _ => exact fun htrue => absurd (hended.symm.trans htrue) (by decide)

theorem closing_eq (L : Lobby) (pair : Pair) (failure : Option FailCode) : ∃ out, Quiet L.out out ∧
    (failure.elim ((L.deactivate pair.peerId).disarm (.punch pair.peerId)) fun code =>
      ((L.deactivate pair.peerId).disarm (.punch pair.peerId)).push
        (.printLine (failLine code pair.name))) =
    { L.deactivate pair.peerId with armed := L.armed.filter (· ≠ .punch pair.peerId), out := out }
      := by
  obtain ⟨out, hquiet, hdisarm⟩ := disarm_eq (L.deactivate pair.peerId) (.punch pair.peerId)
  rw [hdisarm]
  cases failure with
  | none => exact ⟨out, hquiet, rfl⟩
  | some code =>
    exact ⟨_,
      Quiet.trans hquiet (@quiet_append out [.printLine (failLine code pair.name)] rfl), rfl⟩

theorem findPair_some {peerId : U32} {pair : Pair} (h : L.findPair peerId = some pair) :
    pair ∈ L.pairs ∧ pair.peerId = peerId :=
  ⟨List.mem_of_find?_eq_some h, by simpa using List.find?_some h⟩

theorem noteDeparted_eq (L : Lobby) (peerId : U32) :
    L.noteDeparted peerId = { L with departed := L.departedWith peerId } := by
  unfold noteDeparted departedWith
  split_ifs
  · rfl
  · rfl

theorem reportClosed_cases (out : Batch) {peerId : U32} (hrole : L.role ≠ .player)
    (hquiet : Quiet L.out out)
    (hreports : L.reporting = true → L.roomEnded = false ∧ L.token.isSome = true) :
    Closed L peerId (L.closed peerId out).reportClosed := by
  unfold reportClosed
  by_cases hreporting : L.reporting = true
  · obtain ⟨hended, htoken⟩ := hreports hreporting
    obtain ⟨token, htoken⟩ := Option.isSome_iff_exists.mp htoken
    have hreported := sendHostReport_cases (L := L.closed peerId out) htoken
    have halive := hreported.alive hended
    rw [if_pos (c := (L.closed peerId out).reporting = true) hreporting]
    dsimp only
    rw [if_neg]
    · exact .reported out token _ hrole hreporting htoken hquiet hreported
    · rintro ⟨htrue, hzero⟩
      have hactive := halive htrue
      omega
  · rw [if_neg (c := (L.closed peerId out).reporting = true) hreporting]
    have hquieted : L.reporting = false := by simpa using hreporting
    dsimp only
    by_cases hended : (L.closed peerId out).roomEnded ∧ (L.closed peerId out).activePairs = 0
    · rw [if_pos hended]
      obtain ⟨out', hquiet', h⟩ := endAttempt_eq (L.closed peerId out) "room_ended" true
      rw [h]
      exact .ended out' hrole hended.1 (hquiet.trans hquiet')
    · rw [if_neg hended]
      apply Closed.stays out hrole hquieted hquiet
      intro htrue
      exact Nat.pos_of_ne_zero fun hzero => hended ⟨htrue, hzero⟩

theorem closePair_cases {peerId : U32} {pair : Pair} (hpair : L.findPair peerId = some pair)
    (hactive : pair.active = true) (failure : Option FailCode)
    (hreports : L.reporting = true → L.roomEnded = false ∧ L.token.isSome = true) :
    Closed L peerId (L.closePair peerId failure) := by
  obtain ⟨-, rfl⟩ := findPair_some hpair
  obtain ⟨out, hquiet, hclosing⟩ := closing_eq L pair failure
  unfold closePair
  rw [hpair]
  dsimp only
  rw [hactive, hclosing]
  simp only [Bool.not_true, Bool.false_eq_true, if_false]
  by_cases hrole : L.role = .player
  · obtain ⟨out', hquiet', hended⟩ := endAttempt_eq
      { L.deactivate pair.peerId with armed := L.armed.filter (· ≠ .punch pair.peerId), out := out }
      (if failure.isSome = true then "failed" else "closed") true
    refine cast (congrArg (Closed L pair.peerId) ?_)
      (Closed.player out' hrole (hquiet.trans hquiet'))
    exact ((if_pos hrole).trans hended).symm
  · rw [if_neg (c := (L.deactivate pair.peerId).role = LobbyRole.player) hrole, noteDeparted_eq]
    exact reportClosed_cases out hrole hquiet hreports

/-! ## Replies of the steps -/

theorem takeIssued_eq (L : Lobby) (io : LobbyIo) (issued : Issued) : ∃ out, Quiet L.out out ∧
    L.takeIssued io issued = { L with
      roomId := issued.roomId
      peerId := issued.peerId
      localVip := issued.virtualIp
      token := some issued.peerToken
      requestBody := .empty
      tries := 0
      reporting := if L.role = .host then true else L.reporting
      armed := if L.role = .host then withTimer L.armed .hostReport else L.armed
      stage := .stun
      stunStarted := io.now
      out := out } := by
  unfold takeIssued
  dsimp only
  generalize hM : push _ (.assignAddress _) = M
  have hsaid : Says { L with
      roomId := issued.roomId
      peerId := issued.peerId
      localVip := issued.virtualIp
      token := some issued.peerToken
      requestBody := .empty
      tries := 0 } M := by
    subst hM
    exact ((((Says.refl _).push rfl).push rfl).push rfl).push rfl
  clear hM
  obtain ⟨out, hquiet, rfl⟩ := hsaid
  by_cases hrole : L.role = .host
  · obtain ⟨out', hquiet', harm⟩ := arm_eq { L with
      roomId := issued.roomId
      peerId := issued.peerId
      localVip := issued.virtualIp
      token := some issued.peerToken
      requestBody := .empty
      tries := 0
      reporting := true
      out := out } .hostReport hostReportOpenMs
    refine ⟨{ out' with actions := out'.actions ++ [.startStun] },
      (hquiet.trans hquiet').trans (quiet_append rfl), ?_⟩
    dsimp only at harm ⊢
    rw [if_pos hrole, harm, if_pos hrole, if_pos hrole]
    rfl
  · refine ⟨{ out with actions := out.actions ++ [.startStun] },
      hquiet.trans (quiet_append rfl), ?_⟩
    rw [if_neg hrole, if_neg hrole, if_neg hrole]
    rfl

theorem takeRegistered_eq (L : Lobby) (registered : Registered) : ∃ out, Quiet L.out out ∧
    L.takeRegistered registered = { L with
      requestBody := .empty
      tries := 0
      stage := if L.role = .host then .settled else .polling
      armed := if L.role = .host then L.armed else withTimer (withTimer L.armed .poll) .deadline
      out := out } := by
  have hsaid : ∃ out, Quiet L.out out ∧ (if registered.rejected ≠ 0 then
      L.log .warn "control.candidates_rejected"
        [⟨"rejected", decimal registered.rejected.toNat⟩] else L) =
      { L with out := out } := ((Says.refl L).push rfl).when (.refl L)
  obtain ⟨out, hquiet, hsaid⟩ := hsaid
  unfold takeRegistered
  rw [hsaid]
  dsimp only
  by_cases hrole : L.role = .host
  · refine ⟨{ out with actions := out.actions ++ [.startRoster ⟨L.peerId, L.localVip, L.name⟩] },
      hquiet.trans (quiet_append rfl), ?_⟩
    rw [if_pos hrole, if_pos hrole, if_pos hrole]
    rfl
  · rw [if_neg hrole, if_neg hrole, if_neg hrole]
    obtain ⟨out', hquiet', hpoll⟩ := arm_eq
      { L with requestBody := .empty, tries := 0, stage := .polling, out := out } .poll
        getPeersPollMs
    obtain ⟨out'', hquiet'', hdeadline⟩ := arm_eq
      ({ L with requestBody := .empty, tries := 0, stage := .polling, out := out }.arm .poll
        getPeersPollMs)
      .deadline getPeersDeadlineMs
    rw [hpoll] at hquiet''
    refine ⟨out'', (hquiet.trans hquiet').trans hquiet'', ?_⟩
    rw [hdeadline, hpoll]

/-- The host of the room is noted; once it is ready, a player stops polling and opens its session.
-/
inductive HostPeerTaken (L : Lobby) (peer : PeerView) : Lobby → Prop where
  | waits (out : Batch) : isPunchReady peer = false → Quiet L.out out →
      HostPeerTaken L peer { L with
        hostPeer := some peer.peerId
        armed := withTimer L.armed .poll
        out := out }
  | opened (out : Batch) : isPunchReady peer = true → Quiet L.out out →
      HostPeerTaken L peer (openPair { L with
        hostPeer := some peer.peerId
        stage := .settled
        armed := (L.armed.filter (· ≠ .deadline)).filter (· ≠ .poll)
        out := out } peer L.stunStarted)

theorem takeHostPeer_cases (L : Lobby) (peer : PeerView) :
    HostPeerTaken L peer (L.takeHostPeer peer) := by
  unfold takeHostPeer
  dsimp only
  by_cases hready : isPunchReady peer = true
  · rw [if_pos hready]
    generalize hM : log _ .info "control.peers" (controlPeersFields peer) = M
    have hsaid : Says { L with hostPeer := some peer.peerId } M := by
      subst hM
      exact (Says.refl _).push rfl
    clear hM
    obtain ⟨out, hquiet, rfl⟩ := hsaid
    obtain ⟨out', hquiet', hdeadline⟩ :=
      disarm_eq { L with hostPeer := some peer.peerId, out := out } .deadline
    obtain ⟨out'', hquiet'', hpoll⟩ := disarm_eq
      (disarm { L with hostPeer := some peer.peerId, out := out } .deadline) .poll
    dsimp only at hpoll ⊢
    rw [hpoll]
    rw [hdeadline] at hquiet'' ⊢
    exact .opened out'' hready ((Quiet.trans hquiet hquiet').trans hquiet'')
  · rw [if_neg hready]
    obtain ⟨out, hquiet, harm⟩ :=
      arm_eq { L with hostPeer := some peer.peerId } .poll getPeersPollMs
    rw [harm]
    exact .waits out (by simpa using hready) hquiet

/-! ## Reports that were answered -/

/-- The peers of a response that have no `PAIR#` item as yet. -/
def unready (peers : List PeerView) : List U32 := (peers.filter fun p => !p.ready).map (·.peerId)

theorem noteListed_eq (io : LobbyIo) (announced : List U32) (s : Lobby × List U32)
    (peer : PeerView) :
    ∃ out firstSeen stillHere, Quiet s.1.out out ∧ noteListed io announced s peer =
      ({ s.1 with confirm := s.1.confirm ++ unready [peer], firstSeen := firstSeen, out := out },
        stillHere) := by
  obtain ⟨L, stillHere⟩ := s
  have hseen : ∃ firstSeen, (if L.firstSeen.any (·.1 = peer.peerId) then L
      else { L with firstSeen := L.firstSeen ++ [(peer.peerId, io.now)] }) =
      { L with firstSeen := firstSeen } := by
    split_ifs
    · exact ⟨L.firstSeen, rfl⟩
    · exact ⟨_, rfl⟩
  obtain ⟨firstSeen, hseen⟩ := hseen
  have hconfirm : (if !peer.ready then
      { L with firstSeen := firstSeen, confirm := L.confirm ++ [peer.peerId] }
      else { L with firstSeen := firstSeen }) =
      { L with confirm := L.confirm ++ unready [peer], firstSeen := firstSeen } := by
    unfold unready
    cases hready : peer.ready <;> simp [hready]
  unfold noteListed
  dsimp only
  rw [hseen, hconfirm]
  split_ifs
  · exact ⟨_, _, _, .refl _, rfl⟩
  · exact ⟨_, _, _, push_quiet (L := L) rfl, rfl⟩
  · exact ⟨_, _, _, .refl _, rfl⟩

theorem foldl_noteListed (io : LobbyIo) (announced : List U32) (peers : List PeerView)
    (s : Lobby × List U32) :
    ∃ out firstSeen stillHere, Quiet s.1.out out ∧ peers.foldl (noteListed io announced) s =
      ({ s.1 with confirm := s.1.confirm ++ unready peers, firstSeen := firstSeen, out := out },
        stillHere) := by
  induction peers generalizing s with
  | nil => exact ⟨s.1.out, s.1.firstSeen, s.2, .refl _, by simp [unready]⟩
  | cons peer rest ih =>
    obtain ⟨out, firstSeen, stillHere, hquiet, hnoted⟩ := noteListed_eq io announced s peer
    obtain ⟨out', firstSeen', stillHere', hquiet', hrest⟩ := ih (noteListed io announced s peer)
    rw [hnoted] at hquiet'
    refine ⟨out', firstSeen', stillHere', hquiet.trans hquiet', ?_⟩
    have hcons : unready (peer :: rest) = unready [peer] ++ unready rest := by
      unfold unready
      rw [← List.map_append, ← List.filter_append, List.singleton_append]
    rw [List.foldl_cons, hrest, hnoted, hcons, ← List.append_assoc]

/-- The lobby once a successful report is noted, before pairs are opened. -/
def noted (L : Lobby) (peers : List PeerView) (carried : List U32) (firstSeen : List (U32 × Millis))
    (announced : List U32) (out : Batch) : Lobby :=
  { L with
    departed := L.departed.filter (· ∉ carried)
    lastPeerCount := peers.length
    confirm := unready peers
    announced := announced
    pairs := L.pairs.filter fun p =>
      p.active || p.peerId ∈ peers.map PeerView.peerId || p.peerId ∈ L.departed.filter (· ∉ carried)
    firstSeen := firstSeen
    out := out }

/-- The lobby once a successful report is taken: pairs are opened where the room is set up. -/
theorem takeReport_eq (L : Lobby) (io : LobbyIo) (peers : List PeerView) (carried : List U32) :
    ∃ firstSeen announced out, Quiet L.out out ∧ L.takeReport io peers carried =
      if L.stage = .settled then
        peers.foldl openListed (L.noted peers carried firstSeen announced out)
      else L.noted peers carried firstSeen announced out := by
  obtain ⟨out, firstSeen, stillHere, hquiet, hfold⟩ := foldl_noteListed io L.announced peers
    ({ L with departed := L.departed.filter (· ∉
      carried), lastPeerCount := peers.length, confirm := [] }, [])
  unfold takeReport
  dsimp only
  rw [hfold]
  dsimp only
  generalize hN : forgetGone _ _ = N
  have hnoted : N = L.noted peers carried N.firstSeen stillHere out := by
    subst hN
    rfl
  clear hN
  by_cases hsettled : L.stage = .settled
  · have hroster : ∀ a, N.push a =
      L.noted peers carried N.firstSeen stillHere { out with actions := out.actions ++ [a] } := by
      rw [hnoted]
      exact fun _ => rfl
    refine ⟨N.firstSeen, stillHere, _, hquiet.trans (@quiet_append _ [.setRosterPeers
      (peers.map fun p => ⟨p.peerId, p.virtualIp, p.name⟩)] rfl), ?_⟩
    rw [hroster, if_pos hsettled, if_neg]
    rw [hnoted]
    exact not_not_intro hsettled
  · refine ⟨N.firstSeen, stillHere, out, hquiet, ?_⟩
    rw [if_neg hsettled, ← hnoted, if_pos]
    rw [hnoted]
    exact hsettled

end Sangtachi.Lobby
