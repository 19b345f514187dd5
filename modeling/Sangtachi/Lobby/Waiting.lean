import Sangtachi.Lobby.Trace

/-! # The lobby never gets stuck

After every event the stage the lobby is in waits for something that will come: a reply, a timer,
the answer to its STUN query, or the end of a session. -/
namespace Sangtachi.Lobby

open Sangtachi.BigEndian Sangtachi.Packet Sangtachi.Peer Sangtachi.Tunnel

variable {L : Lobby} {h : List Entry}

/-! ## The STUN query -/

def queryAct (underWay : Bool) : LobbyAction → Bool
  | .startStun => true
  | .cancelStun => false
  | _ => underWay

def queryBefore (underWay : Bool) : LobbyEvent → Bool
  | .stunDone _ _ => false
  | _ => underWay

def queryEntry (underWay : Bool) (e : Entry) : Bool :=
  e.after.actions.foldl queryAct (queryBefore underWay e.event)

/-- A query was started that was neither answered nor cancelled. -/
def queryUnderWay (h : List Entry) : Bool := h.foldl queryEntry false

theorem act_query {v w : View} {a : LobbyAction} (hact : v.act a = some w) :
    w.stun = queryAct v.stun a := by
  unfold View.act at hact
  split at hact
  · split_ifs at hact
    rw [← Option.some.inj hact]
    rfl
  · rw [← Option.some.inj hact]
    rfl
  · split_ifs at hact
    rw [← Option.some.inj hact]
    rfl
  · rw [← Option.some.inj hact]
    rfl
  · rw [← Option.some.inj hact]
    unfold queryAct
    split
    · contradiction
    · contradiction
    · rfl

theorem acts_query {as : List LobbyAction} {v w : View} (hacts : as.foldlM View.act v = some w) :
    w.stun = as.foldl queryAct v.stun := by
  induction as generalizing v with
  | nil =>
    rw [← Option.some.inj hacts]
    rfl
  | cons a as ih =>
    rw [List.foldlM_cons] at hacts
    obtain ⟨u, hact, hrest⟩ := Option.bind_eq_some_iff.mp hacts
    rw [ih hrest, List.foldl_cons, act_query hact]

theorem entry_query {e : Entry} {v w : View} (hentry : v.entry e = some w) :
    w.stun = queryEntry v.stun e := by
  have hstun : (v.before e.event).stun = queryBefore v.stun e.event := by
    cases e.event <;> rfl
  rw [acts_query hentry, hstun]
  rfl

theorem replay_query {w : View} (hreplay : replay h = some w) : w.stun = queryUnderWay h := by
  have hfold : ∀ (es : List Entry) {v : View}, es.foldlM View.entry v = some w →
    w.stun = es.foldl queryEntry v.stun := by
    intro es
    induction es with
    | nil =>
      intro v hes
      rw [← Option.some.inj hes]
      rfl
    | cons e es ih =>
      intro v hes
      rw [List.foldlM_cons] at hes
      obtain ⟨u, hentry, hrest⟩ := Option.bind_eq_some_iff.mp hes
      rw [ih hrest, List.foldl_cons, entry_query hentry]
  exact hfold h hreplay

/-! ## What each stage waits for -/

def ExactlyOne (a b c : Prop) : Prop := (a ∧ ¬b ∧ ¬c) ∨ (¬a ∧ b ∧ ¬c) ∨ (¬a ∧ ¬b ∧ c)

def UnderWay (L : Lobby) (op : Op) : Prop :=
  ∃ p, L.pending = some p ∧ p.op = op ∧ p.orphaned = false

/-- What the lobby waits for after the events of `h`. -/
structure Waits (h : List Entry) (L : Lobby) : Prop where
  step : L.stage = .issuing ∨ L.stage = .registering → L.requestOp ≠ .hostReport ∧
    ExactlyOne (UnderWay L L.requestOp)
    (.retry ∈ L.armed) (L.requestDue = true ∧ UnderWay L .hostReport)
  polling : L.stage = .polling → .deadline ∈ L.armed ∧ Xor (.poll ∈ L.armed) (UnderWay L .getPeers)
  stun : L.stage = .stun → queryUnderWay h = true
  reporting : L.reporting = true → .hostReport ∈ L.armed ∨ L.reportDue = true ∧
    L.pending.isSome = true
  player : L.role = .player → L.stage = .settled → L.activePairs = 1
  ended : L.role = .host → L.roomEnded = true → L.stage ≠ .lobby → 1 ≤ L.activePairs
  punches : ∀ peerId, .punch peerId ∈ L.armed → ∃ p ∈ L.pairs, p.peerId = peerId ∧ p.active = true
  lobby : L.stage = .lobby → L.armed = [] ∧ L.pairs = [] ∧ L.requestDue = false ∧
    L.reportDue = false ∧
    L.token = none ∧ L.roomId = [] ∧ L.departed = []
  /-- the timers that the actions of the run leave armed are those the lobby knows of -/
  armed : ∃ w, replay h = some w ∧ ∀ n, n ∈ w.timers ↔ n ∈ L.armed

theorem Invariant.underWay (hinv : Invariant L) (hlobby : L.stage ≠ .lobby) {op : Op} :
    UnderWay L op ↔ ∃ p, L.pending = some p ∧ p.op = op := by
  constructor
  · rintro ⟨p, hp, hop, -⟩
    exact ⟨p, hp, hop⟩
  · rintro ⟨p, hp, hop⟩
    refine ⟨p, hp, hop, ?_⟩
    simpa using fun htrue => hlobby ((hinv.orphaned p hp).mp htrue)

theorem Invariant.oneTrigger (hinv : Invariant L)
    (hstage : L.stage = .issuing ∨ L.stage = .registering) :
    L.requestOp ≠ .hostReport ∧ ExactlyOne (UnderWay L L.requestOp) (.retry ∈ L.armed)
      (L.requestDue = true ∧ UnderWay L .hostReport) := by
  have hlobby : L.stage ≠ .lobby := by
    rcases hstage with hstage | hstage <;> rw [hstage] <;> decide
  have hown : L.requestOp ≠ .hostReport := by
    rcases hstage with hstage | hstage
    · rcases hinv.issues hstage with hop | hop <;> rw [hop] <;> decide
    · rw [hinv.registers hstage]
      decide
  refine ⟨hown, ?_⟩
  have hasked : ¬((∀ p, L.pending = some p → p.op = .hostReport) ∧ ∃ p, L.pending = some p ∧
    p.op = L.requestOp) := by
    rintro ⟨hreport, p, hp, hop⟩
    exact hown (hop.symm.trans (hreport p hp))
  rw [hinv.underWay hlobby, hinv.underWay hlobby]
  cases hinv.asking hstage with
  | sent p hp hop hdue hretry _ =>
    exact .inl
      ⟨⟨p, hp, hop⟩, hretry, fun hdeferred => absurd (hdue.symm.trans hdeferred.1) (by decide)⟩
  | resting hreport hdue hretry _ =>
    exact .inr (.inl ⟨fun hsent => hasked ⟨hreport, hsent⟩, hretry,
      fun hdeferred => absurd (hdue.symm.trans hdeferred.1) (by decide)⟩)
  | deferred p hp hop hdue hretry _ =>
    refine .inr (.inr ⟨fun hsent => hasked ⟨?_, hsent⟩, hretry, hdue, p, hp, hop⟩)
    intro q hq
    obtain rfl := Option.some.inj (hp.symm.trans hq)
    exact hop

theorem Invariant.onePoll (hinv : Invariant L) (hstage : L.stage = .polling) :
    .deadline ∈ L.armed ∧ Xor (.poll ∈ L.armed) (UnderWay L .getPeers) := by
  obtain ⟨hdeadline, hpolling⟩ := hinv.polling hstage
  refine ⟨hdeadline, ?_⟩
  rw [hinv.underWay (by rw [hstage]; decide)]
  cases hpolling with
  | sent p hp hpoll =>
    have hfits := hinv.fits p hp
    rw [hstage] at hfits
    exact .inr ⟨⟨p, hp, hfits⟩, hpoll⟩
  | resting hnone hpoll =>
    refine .inl ⟨hpoll, ?_⟩
    rintro ⟨p, hp, -⟩
    exact absurd (hnone.symm.trans hp) (by simp)

/-- In every stage that an event can leave the lobby in, some trigger is alive. -/
theorem lobby_waits (hrun : Run h L) : Waits h L := by
  have hinv := run_invariant hrun
  obtain ⟨w, hreplay, hof⟩ := run_replay hrun
  constructor
  case step => exact hinv.oneTrigger
  case polling => exact hinv.onePoll
  case stun =>
    intro hstage
    rw [← replay_query hreplay]
    exact hof.stun.mpr hstage
  case reporting =>
    intro hreporting
    rcases hinv.cycle hreporting with harmed | hdue
    · exact .inl harmed
    · exact .inr ⟨hdue, hinv.behind hdue⟩
  case player =>
    intro hrole hstage
    obtain ⟨p, hpairs, hactive⟩ := hinv.player hrole hstage
    unfold activePairs
    rw [hpairs]
    simp [hactive]
  case ended => exact fun _ hended _ => hinv.alive hended
  case punches => exact fun peerId hpunch => hinv.timers _ hpunch
  case lobby =>
    intro hstage
    obtain ⟨-, hroom, htoken, hrequest, -, hreport, -, hdeparted, hpairs, harmed⟩ :=
      hinv.cleared hstage
    exact ⟨harmed, hpairs, hrequest, hreport, htoken, hroom, hdeparted⟩
  case armed => exact ⟨w, hreplay, hof.timers⟩

/-- A host that types `host` and is issued its room waits for the answer to its STUN query. -/
def hostIo : LobbyIo where
  nonce := some ⟨List.replicate 32 0x61, by decide⟩
  now := 1000
  collect _ := []

def hostIssued : Issued where
  roomId := List.replicate 6 0x41
  peerId := 1
  peerToken := ⟨List.replicate 32 0x62, by decide⟩
  virtualIp := 0x0A0A0001
  expiresInS := 3600

def hostBegun : Lobby := (create [0x61]).step hostIo (.command { kind := .host })

def hostJoined : Lobby :=
  hostBegun.step hostIo
    (.reply
      ⟨.createRoom, .issued { outcome := .success, failure := .none, value := some hostIssued }⟩)

theorem joined_host_waits : hostJoined.stage = .stun ∧
    Waits [⟨hostIo, .command { kind := .host }, create [0x61], hostBegun⟩,
      ⟨hostIo, .reply
        ⟨.createRoom, .issued { outcome := .success, failure := .none, value := some hostIssued }⟩,
        hostBegun, hostJoined⟩] hostJoined :=
  ⟨by decide +kernel, lobby_waits (.event hostIo _ (.event hostIo _ (.start _)))⟩

end Sangtachi.Lobby
