import Sangtachi.Lobby.Accounts

/-! # The sessions that are to be opened

A session is asked for when its pair becomes active, and the pair stays so while the action waits:
none of the events that can come in meanwhile ends it. -/
namespace Sangtachi.Lobby

open Sangtachi.BigEndian Sangtachi.Packet Sangtachi.Peer Sangtachi.Tunnel

variable {L L' : Lobby} {io : LobbyIo} {q : ℕ} {r o : Openings}

def opening : LobbyAction → Option (LobbyRole × U32)
  | .openSession request _ role _ => some (role, request.peerId)
  | _ => none

def opensOf (as : List LobbyAction) : Openings := as.filterMap opening

theorem opensOf_append (as bs : List LobbyAction) : opensOf (as ++ bs) = opensOf as ++ opensOf bs :=
  List.filterMap_append

theorem opensOf_push (L : Lobby) (a : LobbyAction) :
    opensOf (L.push a).out.actions = opensOf L.out.actions ++ opensOf [a] :=
  opensOf_append _ _

theorem isIdle_opening {a : LobbyAction} (h : isIdle a = true) : opening a = none := by
  cases a with
  | openSession => cases h
  | _ => rfl

theorem Idles.opens (h : Idles L L') : opensOf L'.out.actions = opensOf L.out.actions := by
  obtain ⟨as, has, hidle⟩ := h
  rw [has, opensOf_append]
  unfold opensOf
  rw [List.filterMap_eq_nil_iff.mpr fun a ha => isIdle_opening (hidle a ha), List.append_nil]

theorem Move.opens (hmove : Move q r o L L') :
    opensOf L'.out.actions = opensOf L.out.actions ++ o := by
  have hidle : ∀ {M : Lobby}, Idles L M → opensOf M.out.actions = opensOf L.out.actions ++ [] :=
    fun hidles => hidles.opens.trans (List.append_nil _).symm
  cases hmove with
  | alike _ _ hsame => exact hidle ((Idles.refl L).same hsame.actions)
  | tells _ a ha => exact hidle ((Idles.refl L).push (isPlain_idle ha))
  | arms _ name delayMs => exact hidle ((Idles.refl L).arm name delayMs)
  | disarms _ name => exact hidle ((Idles.refl L).disarm name)
  | forgets _ name => exact hidle ((Idles.refl L).same rfl)
  | begins => exact opensOf_push L _
  | goes => exact hidle ((Idles.refl L).same rfl)
  | queries => exact opensOf_push L _
  | settles => exact opensOf_push L _
  | meets _ pair request setupBaseMs _ _ hpeer =>
    rw [hpeer]
    exact opensOf_push L _
  | admits _ pair request setupBaseMs _ _ hpeer =>
    rw [hpeer]
    exact opensOf_push L _
  | pairs => exact hidle ((Idles.refl L).same rfl)
  | ends _ reason leaveRoom => exact hidle ((Idles.refl L).endAttempt reason leaveRoom)
  | unfinished _ result reason leaveRoom =>
    rw [((Idles.refl _).endAttempt reason leaveRoom).opens, List.append_nil]
    unfold Lobby.recordUnfinished
    split_ifs
    · exact (opensOf_push L _).trans (List.append_nil _)
    · exact (opensOf_push L _).trans (List.append_nil _)
    · rfl
  | unopened => exact opensOf_push L _

theorem Moves.opens (hmoves : Moves q r o L L') :
    opensOf L'.out.actions = opensOf L.out.actions ++ o := by
  induction hmoves with
  | refl => exact (List.append_nil _).symm
  | tail _ hmove ih => rw [hmove.opens, ih, List.append_assoc]

/-- The sessions that an event asks for are with different peers, their pairs are active after it,
and only a reply asks for any. -/
theorem step_opens (hinv : Invariant L) (io : LobbyIo) (event : LobbyEvent) :
    (L.step io event).Opened (opensOf (L.step io event).actions) ∧
      (isReply event = false → opensOf (L.step io event).actions = []) := by
  obtain ⟨q, -, o, hreply, hopened, hmoves⟩ := step_moves hinv io event
  have hopens : opensOf (L.step io event).actions = o := by
    have hsubmits : ∀ rs : List SubmitRequest, opensOf (rs.map .submitRequest) = [] :=
      fun rs => List.filterMap_eq_nil_iff.mpr fun a ha => by
        obtain ⟨request, -, rfl⟩ := List.mem_map.mp ha
        rfl
    unfold actions Batch.finish
    rw [opensOf_append, hsubmits, List.append_nil, hmoves.opens]
    rfl
  rw [hopens]
  exact ⟨hopened, hreply⟩

/-! ## Records -/

def RecordsFailure : LobbyAction → Prop
  | .recordAttempt role _ result => role ≠ .none ∧ result ≠ "OK"
  | _ => True

theorem isIdle_record {a : LobbyAction} (h : isIdle a = true) : RecordsFailure a := by
  cases a with
  | recordAttempt => cases h
  | _ => trivial

theorem push_records {a : LobbyAction} (ha : RecordsFailure a)
    (h : ∀ b ∈ L.out.actions, RecordsFailure b) :
    ∀ b ∈ (L.push a).out.actions, RecordsFailure b := by
  intro b hb
  rcases List.mem_append.mp hb with hold | hnew
  · exact h b hold
  · exact List.mem_singleton.mp hnew ▸ ha

theorem Idles.records (hidles : Idles L L') (h : ∀ b ∈ L.out.actions, RecordsFailure b) :
    ∀ b ∈ L'.out.actions, RecordsFailure b := by
  obtain ⟨as, has, hidle⟩ := hidles
  intro b hb
  rw [has] at hb
  rcases List.mem_append.mp hb with hold | hnew
  · exact h b hold
  · exact isIdle_record (hidle b hnew)

theorem Move.records (hmove : Move q r o L L') (h : ∀ b ∈ L.out.actions, RecordsFailure b) :
    ∀ b ∈ L'.out.actions, RecordsFailure b := by
  cases hmove with
  | alike _ _ hsame => exact ((Idles.refl L).same hsame.actions).records h
  | tells _ a ha => exact ((Idles.refl L).push (isPlain_idle ha)).records h
  | arms _ name delayMs => exact ((Idles.refl L).arm name delayMs).records h
  | disarms _ name => exact ((Idles.refl L).disarm name).records h
  | forgets _ name => exact h
  | begins => exact push_records (L := L) trivial h
  | goes => exact h
  | queries => exact push_records trivial h
  | settles => exact push_records (L := L) trivial h
  | meets => exact push_records (L := L) trivial h
  | admits => exact push_records (L := L) trivial h
  | pairs => exact h
  | ends _ reason leaveRoom => exact ((Idles.refl L).endAttempt reason leaveRoom).records h
  | unfinished _ result reason leaveRoom _ hresult =>
    refine ((Idles.refl _).endAttempt reason leaveRoom).records ?_
    unfold Lobby.recordUnfinished
    split_ifs with hplayer hhost
    · exact push_records ⟨hplayer.1 ▸ nofun, hresult⟩ h
    · exact push_records ⟨hhost.1 ▸ nofun, hresult⟩ h
    · exact h
  | unopened _ peerId result hrole hresult => exact push_records ⟨hrole, hresult⟩ h

theorem Moves.records (hmoves : Moves q r o L L') (h : ∀ b ∈ L.out.actions, RecordsFailure b) :
    ∀ b ∈ L'.out.actions, RecordsFailure b := by
  induction hmoves with
  | refl => exact h
  | tail _ hmove ih => exact hmove.records (ih h)

theorem run_records {h : List Entry} (hrun : Run h L) : ∀ a ∈ said h, RecordsFailure a := by
  induction hrun with
  | start name => exact nofun
  | @event h L io event hrun ih =>
    intro a ha
    unfold said at ih ha
    rw [List.flatMap_append] at ha
    rcases List.mem_append.mp ha with hold | hnew
    · exact ih a hold
    · obtain ⟨q, -, o, -, -, hmoves⟩ := step_moves (run_invariant hrun) io event
      have hstep : ∀ b ∈ (L.step io event).out.actions, RecordsFailure b := hmoves.records nofun
      replace hnew : a ∈ (L.step io event).actions ++ [] := hnew
      rw [List.append_nil] at hnew
      unfold actions Batch.finish at hnew
      rcases List.mem_append.mp hnew with hout | hrequest
      · exact hstep a hout
      · obtain ⟨request, -, rfl⟩ := List.mem_map.mp hrequest
        trivial

/-! ## Pairs that stay active -/

theorem Paired.stage {peerId : U32} (h : L.Paired peerId) (hinv : Invariant L) :
    L.stage = .settled ∧ L.role ≠ .none := by
  obtain ⟨pair, hpair, -⟩ := h.found
  exact hinv.settled (List.ne_nil_of_mem (findPair_some hpair).1)

/-- A change of the pairs with `other` leaves those with the peer. -/
theorem Paired.map {peerId other : U32} (h : L.Paired peerId) (hother : peerId ≠ other)
    (f : Pair → Pair) (hsame : ∀ x, (f x).peerId = x.peerId) :
    Paired { L with pairs := L.pairs.map fun x => if x.peerId = other then f x else x } peerId := by
  have hkept : ∀ x : Pair, (if x.peerId = other then f x else x).peerId = x.peerId := by
    intro x
    split_ifs
    · exact hsame x
    · rfl
  obtain ⟨pair, hpair, hactive⟩ := h.found
  have hid := (findPair_some hpair).2
  have hfound :
    findPair { L with pairs := L.pairs.map fun x => if x.peerId = other then f x else x } peerId =
      some pair := by
    unfold findPair at hpair ⊢
    rw [List.find?_map]
    simp only [Function.comp_def, hkept]
    rw [hpair, Option.map_some, if_neg (by rw [hid]; exact hother)]
  unfold Paired
  rw [hfound]
  exact hactive

theorem reportClosed_others {peerId : U32} (hrole : L.role = .host) (hstage : L.stage = .settled)
    (h : L.Paired peerId) :
    L.reportClosed.Paired peerId ∧ L.reportClosed.role = .host := by
  have hreported : (if L.reporting = true then L.sendHostReport else L).Paired peerId ∧
      (if L.reporting = true then L.sendHostReport else L).role = .host := by
    split_ifs
    · obtain ⟨hpairs, hsame⟩ := sendHostReport_pairs hrole hstage h.active
      exact ⟨h.same hpairs, hsame.trans hrole⟩
    · exact ⟨h, hrole⟩
  unfold Lobby.reportClosed
  dsimp only
  rw [if_neg fun hended => hreported.1.active hended.2]
  exact hreported

theorem closePair_others {peerId other : U32} (hrole : L.role = .host) (hstage : L.stage = .settled)
    (h : L.Paired peerId) (hother : peerId ≠ other) (failure : Option FailCode) :
    (L.closePair other failure).Paired peerId ∧ (L.closePair other failure).role = .host := by
  unfold Lobby.closePair
  cases hpair : L.findPair other with
  | none => exact ⟨h, hrole⟩
  | some pair =>
    obtain ⟨-, rfl⟩ := findPair_some hpair
    obtain ⟨out, -, hclosing⟩ := closing_eq L pair failure
    have hplayer : (L.deactivate pair.peerId).role ≠ .player := by
      show L.role ≠ .player
      rw [hrole]
      exact nofun
    have hleft : (L.closed pair.peerId out).Paired peerId :=
      (h.map hother (fun x => { x with active := false }) fun _ => rfl).same rfl
    dsimp only
    rw [hclosing]
    split_ifs
    · exact ⟨h, hrole⟩
    · rw [noteDeparted_eq]
      exact reportClosed_others (L := L.closed pair.peerId out) hrole hstage hleft

theorem onSessionOpenFailed_others (hinv : Invariant L) {peerId other : U32} (h : L.Paired peerId)
    (hother : peerId ≠ other) :
    (L.onSessionOpenFailed other).Paired peerId ∧ (L.onSessionOpenFailed other).role = L.role := by
  obtain ⟨hstage, hrole⟩ := h.stage hinv
  unfold Lobby.onSessionOpenFailed
  cases hpair : L.findPair other with
  | none => exact ⟨h, rfl⟩
  | some pair =>
    dsimp only
    split_ifs
    · exact ⟨h, rfl⟩
    cases hL : L.role with
    | none => exact absurd hL hrole
    | player =>
      -- a player has one pair, so there is no other
      obtain ⟨p, hone, -⟩ := hinv.player hL hstage
      obtain ⟨pair', hpair', -⟩ := h.found
      obtain ⟨hmem, hid⟩ := findPair_some hpair
      obtain ⟨hmem', hid'⟩ := findPair_some hpair'
      rw [hone, List.mem_singleton] at hmem hmem'
      exact absurd (hid'.symm.trans (hmem' ▸ hmem ▸ hid)) hother
    | host =>
      have hcleared : (L.clearPairName other).Paired peerId :=
        h.map hother (fun x => { x with name := [] }) fun _ => rfl
      generalize hM : Lobby.clearPairName _ other = M
      have hM' : M.Paired peerId ∧ M.role = .host ∧ M.stage = .settled :=
        hM ▸ ⟨hcleared.same rfl, hL, hstage⟩
      exact closePair_others hM'.2.1 hM'.2.2 hM'.1 hother _

theorem onSubmitDropped_others (hinv : Invariant L) {peerId : U32} (h : L.Paired peerId) :
    L.onSubmitDropped.Paired peerId ∧ L.onSubmitDropped.role = L.role := by
  obtain ⟨hstage, hrole⟩ := h.stage hinv
  unfold Lobby.onSubmitDropped
  cases hpending : L.pending with
  | none => exact ⟨h, rfl⟩
  | some p =>
    dsimp only
    split_ifs with hlive
    · have hlobby : L.stage ≠ .lobby := by rw [hstage]; decide
      obtain ⟨hissued, hregistered, hpeers, hreport⟩ := hinv.stageOf hpending hlobby
      have hhost : L.role = .host := by
        refine (hinv.reports (hinv.reported p hpending hlobby (hreport ?_))).1
        cases hop : p.op with
        | hostReport => rfl
        | createRoom => exact absurd (hstage.symm.trans (hissued (hop ▸ rfl)).1) nofun
        | joinRoom => exact absurd (hstage.symm.trans (hissued (hop ▸ rfl)).1) nofun
        | registerCandidate => exact absurd (hstage.symm.trans (hregistered (hop ▸ rfl)).1) nofun
        | getPeers => exact absurd (hstage.symm.trans (hpeers (hop ▸ rfl))) nofun
      have hsettled : ({ L with pending := none } : Lobby).role = .host ∧
        ({ L with pending := none } : Lobby).stage = .settled :=
        ⟨hhost, hstage⟩
      unfold Lobby.fail
      rw [if_pos hsettled]
      obtain ⟨hpairs, hsame⟩ := endRoom_pairs (L := { L with pending := none }) h.active
      exact ⟨h.same hpairs, hsame⟩
    · exact ⟨h.same rfl, rfl⟩

/-- What the runner tells the lobby while actions of it still wait. -/
def isNested : LobbyEvent → Bool
  | .submitDropped | .stunDone _ _ | .sessionOpenFailed _ => true
  | _ => false

/-- The sessions that wait to be opened stay active, as long as they do not fail to open. -/
theorem Opened.nested {k : Openings} (h : L.Opened k) (hinv : Invariant L) {event : LobbyEvent}
    (hnested : isNested event = true)
    (hother : ∀ peerId, event = .sessionOpenFailed peerId → peerId ∉ k.map (·.2)) :
    (L.step io event).Opened k := by
  have hinv' : Invariant { L with out := {} } := hinv.same (sameStage_out L _)
  have heach : ∀ x ∈ k, (L.step io event).Paired x.2 ∧ (L.step io event).role = L.role := by
    intro x hx
    have hpaired : Paired { L with out := {} } x.2 := (h.paired x hx).2.same rfl
    cases event with
    | submitDropped => exact onSubmitDropped_others hinv' hpaired
    | stunDone ok mappings =>
      have hstage : L.stage ≠ .stun := by
        rw [(hpaired.stage hinv').1]
        decide
      have hsame : L.step io (.stunDone ok mappings) = { L with out := {} } := if_pos hstage
      rw [hsame]
      exact ⟨hpaired, rfl⟩
    | sessionOpenFailed peerId =>
      refine onSessionOpenFailed_others hinv' hpaired fun heq => hother peerId rfl ?_
      rw [← heq]
      exact List.mem_map_of_mem hx
    | _ => cases hnested
  refine ⟨h.nodup, fun x hx => ?_⟩
  obtain ⟨hpaired, hrole⟩ := heach x hx
  exact ⟨(h.paired x hx).1.trans hrole.symm, hpaired⟩

end Sangtachi.Lobby
