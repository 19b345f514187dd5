import Sangtachi.Control.Views

/-! # The calls inside a request

One rule for each call: what a request may assume after it, whatever the other requests did
since its last call. A read and a cancelled transaction leave the state as they found it. -/
namespace Sangtachi.Control

open AtomicPrograms UniqueIndex

abbrev Past := List (Event store)

variable {α : Type} {Q : Past → Shared → Except OpError α → Prop} {past : Past} {s : Shared}

theorem safe_ofExcept {β : Type} {x : Except OpError β} {f : β → Handler α}
    (herr : ∀ e, x = .error e → Q past s (.error e))
    (hok : ∀ b, x = .ok b → rooms.Safe Q (f b) past s) :
    rooms.Safe Q (Prog.ofExcept x >>= f) past s := by
  cases x with
  | ok b => exact hok b rfl
  | error e => exact herr e rfl

theorem safe_nowMs {f : ℤ → Handler α}
    (h : ∀ before r, Grows s before → Consistent before →
      rooms.Safe Q (f r.wallMs) (past ++ [⟨before, r, .nowMs⟩]) { before with clock := r.wallMs }) :
    rooms.Safe Q (Service.nowMs >>= f) past s := by
  refine Discipline.safe_call trivial ?_
  intro before r hgrow hinv hadm hinv' hgrow'
  have hafter : (store.exec r .nowMs before).2 = { before with clock := r.wallMs } := by
    simp [exec, execTable, issuedBy]
  rw [hafter]
  exact h before r hgrow hinv

structure ReadOnly (c : Call) (reply : Reading → Shared → Reply c) : Prop where
  licensed : ∀ s, Licensed s c
  exec : ∀ r s, exec r c s = (reply r s, s)

theorem ReadOnly.after {c : Call} {reply : Reading → Shared → Reply c} (h : ReadOnly c reply)
    (before : Shared) (r : Reading) :
    (⟨before, r, c⟩ : Event store).after = before :=
  congrArg Prod.snd (h.exec r before)

theorem safe_read {c : Call} {reply : Reading → Shared → Reply c} (hread : ReadOnly c reply)
    {f : Reply c → Handler α}
    (h : ∀ before r, Grows s before → Consistent before →
      rooms.Safe Q (f (reply r before)) (past ++ [⟨before, r, c⟩]) before) :
    rooms.Safe Q ((.call c .done : Handler (Reply c)) >>= f) past s := by
  refine Discipline.safe_call (hread.licensed s) ?_
  intro before r hgrow hinv hadm hinv' hgrow'
  have hexec : store.exec r c before = (reply r before, before) := hread.exec r before
  rw [hexec]
  exact h before r hgrow hinv

theorem readOnly_monoNs : ReadOnly .monoNs fun r _ => r.monoNs :=
  ⟨fun _ => trivial, fun r s => by simp [exec, execTable, issuedBy]⟩

theorem readOnly_bootId : ReadOnly .bootId fun r _ => r.bootId :=
  ⟨fun _ => trivial, fun r s => by simp [exec, execTable, issuedBy]⟩

theorem readOnly_newPeerId : ReadOnly .newPeerId fun r _ => r.peerId.1 :=
  ⟨fun _ => trivial, fun r s => by simp [exec, execTable, issuedBy]⟩

theorem readOnly_newPeerToken : ReadOnly .newPeerToken fun r _ => newPeerToken r.tokenDigits :=
  ⟨fun _ => trivial, fun r s => by simp [exec, execTable, issuedBy]⟩

theorem readOnly_newRoomId : ReadOnly .newRoomId fun r _ => newRoomId r.roomLetters :=
  ⟨fun _ => trivial, fun r s => by simp [exec, execTable, issuedBy]⟩

theorem readOnly_getNonce (nonce : Hex32) :
    ReadOnly (.getNonce nonce) fun _ s => s.table.nonces.lookup nonce :=
  ⟨fun _ => trivial, fun r s => by simp [exec, execTable, issuedBy]⟩

theorem readOnly_getRoom (roomId : RoomId) : ReadOnly (.getRoom roomId) fun _ s =>
    s.table.rooms.lookup roomId :=
  ⟨fun _ => trivial, fun r s => by simp [exec, execTable, issuedBy]⟩

theorem readOnly_queryRoom (roomId : RoomId) :
    ReadOnly (.queryRoom roomId) fun _ s => queryRoom s.table roomId :=
  ⟨fun _ => trivial, fun r s => by simp [exec, execTable, issuedBy]⟩

/-! ## Writes -/

theorem exec_cancelled {c : Call} {reply : Reply c} {r : Reading} {s : Shared}
    (h : execTable r c s.table = (reply, s.table)) (hnone : issuedBy c reply = none)
    (hclock : c ≠ .nowMs) :
    exec r c s = (reply, s) := by
  unfold exec
  rw [h]
  cases c <;> simp_all

theorem safe_createRoom {roomId : RoomId} {host : PeerId} {token nonce : Hex32}
    {now : ℤ} {name : Name} {f : CreateResult → Handler α} (hid : host.val ≠ 0)
    (hcommit : ∀ before r after, Grows s before → Consistent before → Grows before after →
      Consistent after →
      after.table.peerAt (roomId, host) = some (Table.hostItem host token nonce now name) →
      rooms.Safe Q (f .created)
      (past ++ [⟨before, r, .createRoom roomId host token nonce now name⟩]) after)
    (hcancel : ∀ before r result, Grows s before → Consistent before → result ≠ .created →
      Event.after
        (⟨before, r, .createRoom roomId host token nonce now name⟩ : Event store) = before →
      rooms.Safe Q (f result)
      (past ++ [⟨before, r, .createRoom roomId host token nonce now name⟩]) before)
    (herror : ∀ before r e, e.code = .internal →
      Event.after
        (⟨before, r, .createRoom roomId host token nonce now name⟩ : Event store) = before →
      Q (past ++ [⟨before, r, .createRoom roomId host token nonce now name⟩]) before (.error e)) :
    rooms.Safe Q
      ((.call (.createRoom roomId host token nonce now name) .ofExcept : Handler CreateResult) >>=
        f)
      past s := by
  have hlic : Licensed s (.createRoom roomId host token nonce now name) := hid
  refine Discipline.safe_call (D := rooms) hlic ?_
  intro before r hgrow hinv hadm hinv' hgrow'
  rcases Table.createRoom_cases r.conflicts roomId host token nonce now name before.table with
    ⟨h, -⟩ | ⟨reply, h, hne, -, -, hcode⟩
  · have hreply : (store.exec r (.createRoom roomId host token nonce now name) before).1 =
      .ok .created := by
      simp [exec, execTable, h]
    rw [hreply]
    refine hcommit before r _ hgrow hinv hgrow' hinv' ?_
    simp [exec, execTable, h, Table.peerAt, Table.putPeer, Table.hostItem]
  · have hnone : issuedBy (.createRoom roomId host token nonce now name) reply = none := by
      unfold issuedBy
      split <;> simp_all
    have hx : execTable r (.createRoom roomId host token nonce now name) before.table =
      (reply, before.table) := h
    have hexec : store.exec r (.createRoom roomId host token nonce now name) before =
      (reply, before) :=
      exec_cancelled hx hnone (by simp)
    have hafter : Event.after
      (⟨before, r, .createRoom roomId host token nonce now name⟩ : Event store) = before :=
      congrArg Prod.snd hexec
    rw [hexec]
    cases reply with
    | error e => exact herror before r e (hcode e rfl) hafter
    | ok result => exact hcancel before r result hgrow hinv (by rintro rfl; exact hne rfl) hafter

theorem safe_joinRoom {roomId : RoomId} {vip : Text} {peer : PeerId} {token nonce : Hex32}
    {now expires : ℤ} {name : Name} {f : JoinResult → Handler α}
    (hlic : vip ∈ PARTICIPANT_POOL ∧ peer.val ≠ 0)
    (hcommit : ∀ before r after, Grows s before → Consistent before → Grows before after →
      Consistent after →
      (before.table.joinRoom r.conflicts roomId vip peer token nonce now expires name).1 =
        .ok .joined →
      after.table.peerAt (roomId, peer) =
        some (Table.joinItem vip peer token nonce now expires name) →
      rooms.Safe Q (f .joined)
      (past ++ [⟨before, r, .joinRoom roomId vip peer token nonce now expires name⟩])
        after)
    (hcancel : ∀ before r result, Grows s before → Consistent before → result ≠ .joined →
      (before.table.joinRoom r.conflicts roomId vip peer token nonce now expires name).1 =
        .ok result →
      (result = .nameTaken → (before.table.names.lookup (roomId, nameKey name)).isSome) →
      (result = .vipTaken → (before.table.vips.lookup (roomId, vip)).isSome) →
      (result ≠ .nonceExists → before.table.nonces.lookup nonce = none) →
      Event.after
        (⟨before, r, .joinRoom roomId vip peer token nonce now expires name⟩ : Event store) =
          before →
      rooms.Safe Q (f result)
      (past ++ [⟨before, r, .joinRoom roomId vip peer token nonce now expires name⟩])
        before)
    (herror : ∀ before r e, e.code = .internal →
      (before.table.joinRoom r.conflicts roomId vip peer token nonce now expires name).1 =
        .error e →
      Event.after
        (⟨before, r, .joinRoom roomId vip peer token nonce now expires name⟩ : Event store) =
          before →
      Q (past ++ [⟨before, r, .joinRoom roomId vip peer token nonce now expires name⟩])
        before (.error e)) :
    rooms.Safe Q
      ((.call (.joinRoom roomId vip peer token nonce now expires name) .ofExcept : Handler
        JoinResult) >>= f)
      past s := by
  have hlic' : Licensed s (.joinRoom roomId vip peer token nonce now expires name) := hlic
  refine Discipline.safe_call (D := rooms) hlic' ?_
  intro before r hgrow hinv hadm hinv' hgrow'
  rcases Table.joinRoom_cases r.conflicts roomId vip peer token nonce now expires name
    before.table with
    ⟨h, -⟩ | ⟨reply, h, hne, -, hname, hvip, hnonce, hcode⟩
  · have hreply : (store.exec r (.joinRoom roomId vip peer token nonce now expires name) before).1 =
        .ok .joined := by
      simp [exec, execTable, h]
    rw [hreply]
    refine hcommit before r _ hgrow hinv hgrow' hinv' (congrArg Prod.fst h) ?_
    simp [exec, execTable, h, Table.peerAt, Table.putPeer, Table.joinItem]
  · have hnone :
      issuedBy (.joinRoom roomId vip peer token nonce now expires name) reply = none := by
      unfold issuedBy
      split <;> simp_all
    have hx : execTable r (.joinRoom roomId vip peer token nonce now expires name) before.table =
        (reply, before.table) := h
    have hexec : store.exec r (.joinRoom roomId vip peer token nonce now expires name) before =
        (reply, before) := exec_cancelled hx hnone (by simp)
    have hafter : Event.after
        (⟨before, r, .joinRoom roomId vip peer token nonce now expires name⟩ : Event store) =
          before :=
      congrArg Prod.snd hexec
    rw [hexec]
    cases reply with
    | error e => exact herror before r e (hcode e rfl) (congrArg Prod.fst h) hafter
    | ok result =>
      refine hcancel before r result hgrow hinv (by rintro rfl; exact hne rfl)
        (congrArg Prod.fst h) ?_ ?_
        (hnonce result rfl) hafter
      · rintro rfl
        exact hname rfl
      · rintro rfl
        exact hvip rfl

theorem safe_registerCandidates {roomId : RoomId} {peer : PeerId} {token : Hex32}
    {candidates : List Candidate} {f : Bool → Handler α} (hclean : CleanCandidates candidates)
    (h : ∀ before r after registered, Grows s before → Consistent before → Grows before after →
      Consistent after →
      rooms.Safe Q (f registered)
      (past ++ [⟨before, r, .registerCandidates roomId peer token candidates⟩])
        after) :
    rooms.Safe Q
      ((.call (.registerCandidates roomId peer token candidates) .done : Handler Bool) >>= f)
        past s := by
  have hlic : Licensed s (.registerCandidates roomId peer token candidates) := hclean
  refine Discipline.safe_call (D := rooms) hlic ?_
  intro before r hgrow hinv hadm hinv' hgrow'
  exact h before r _ _ hgrow hinv hgrow' hinv'

theorem safe_releasePeer {roomId : RoomId} {peer : PeerId} {vip : Text} {host : PeerId}
    {nonce : Option Hex32} {keys : List Text} {f : Bool → Handler α}
    (hlic : Licensed s (.releasePeer roomId peer vip host nonce keys))
    (h : ∀ before r after gone, Grows s before → Consistent before → Grows before after →
      Consistent after →
      (gone = true → (before.table.peerAt (roomId, peer)).isSome ∧ Gone after roomId peer) →
      Event.after
        (⟨before, r, .releasePeer roomId peer vip host nonce keys⟩ : Event store) = after →
      rooms.Safe Q (f gone)
      (past ++ [⟨before, r, .releasePeer roomId peer vip host nonce keys⟩]) after)
    (herror : ∀ e past' after, Q past' after (.error e)) :
    rooms.Safe Q
      ((.call (.releasePeer roomId peer vip host nonce keys) .ofExcept : Handler Bool) >>= f)
        past s := by
  refine Discipline.safe_call (D := rooms) hlic ?_
  intro before r hgrow hinv hadm hinv' hgrow'
  obtain ⟨-, -, n, -, p, hp, hid, -⟩ := hlic
  rcases Table.releasePeer_cases r.conflicts roomId peer vip host nonce keys before.table with
    ⟨hx, hfound⟩ | ⟨reply, hx, hne⟩
  · have hreply : (store.exec r (.releasePeer roomId peer vip host nonce keys) before).1 =
      .ok true := by
      simp [exec, execTable, hx]
    rw [hreply]
    refine h before r _ true hgrow hinv hgrow' hinv' (fun _ => ⟨hfound, p, ?_, hid, ?_⟩) rfl
    · exact hgrow'.issued _ (hgrow.issued _ hp)
    · simp [exec, execTable, hx, Table.peerAt, Table.dropPeer, Table.dropPair]
  · have hreply :
      (store.exec r (.releasePeer roomId peer vip host nonce keys) before).1 = reply := by
      simp [exec, execTable, hx]
    rw [hreply]
    cases reply with
    | error e => exact herror e _ _
    | ok gone =>
      refine h before r _ gone hgrow hinv hgrow' hinv' ?_ rfl
      rintro rfl
      exact absurd rfl hne

theorem safe_reclaimPeer {roomId : RoomId} {peer : PeerId} {vip : Text} {nonce : Hex32} {now : ℤ}
    {keys : List Text} {f : Bool → Handler α}
    (hlic : Licensed s (.reclaimPeer roomId peer vip nonce now keys))
    (h : ∀ before r after gone, Grows s before → Consistent before → Grows before after →
      Consistent after →
      (gone = true → (before.table.peerAt (roomId, peer)).isSome ∧ Gone after roomId peer) →
      Event.after (⟨before, r, .reclaimPeer roomId peer vip nonce now keys⟩ : Event store) = after →
      rooms.Safe Q (f gone)
      (past ++ [⟨before, r, .reclaimPeer roomId peer vip nonce now keys⟩]) after)
    (herror : ∀ e past' after, Q past' after (.error e)) :
    rooms.Safe Q
      ((.call (.reclaimPeer roomId peer vip nonce now keys) .ofExcept : Handler Bool) >>= f)
        past s := by
  refine Discipline.safe_call (D := rooms) hlic ?_
  intro before r hgrow hinv hadm hinv' hgrow'
  obtain ⟨-, p, hp, hid, -⟩ := hlic
  rcases Table.reclaimPeer_cases r.conflicts roomId peer vip nonce now keys before.table with
    ⟨hx, hfound⟩ | ⟨reply, hx, hne⟩
  · have hreply : (store.exec r (.reclaimPeer roomId peer vip nonce now keys) before).1 =
      .ok true := by
      simp [exec, execTable, hx]
    rw [hreply]
    refine h before r _ true hgrow hinv hgrow' hinv'
      (fun _ => ⟨(reclaimable_iff hfound).1, p, ?_, hid, ?_⟩) rfl
    · exact hgrow'.issued _ (hgrow.issued _ hp)
    · simp [exec, execTable, hx, Table.peerAt, Table.dropPeer]
  · have hreply :
      (store.exec r (.reclaimPeer roomId peer vip nonce now keys) before).1 = reply := by
      simp [exec, execTable, hx]
    rw [hreply]
    cases reply with
    | error e => exact herror e _ _
    | ok gone =>
      refine h before r _ gone hgrow hinv hgrow' hinv' ?_ rfl
      rintro rfl
      exact absurd rfl hne

theorem safe_confirmPair {roomId : RoomId} {host other : PeerId} {wall mono : ℤ}
    {boot : Text} {expires : ℤ} {f : ConfirmResult → Handler α}
    (hlic : HostOf s roomId host ∧ other ≠ host)
    (h : ∀ before r after result, Grows s before → Consistent before → Grows before after →
      Consistent after →
      (result = .confirmed → before.table.hasCandidates roomId other = true ∧
        before.table.pairAt (roomId, pairSk host other) = none ∧
        after.table.pairAt (roomId, pairSk host other) =
          some (Table.pairItem wall mono boot expires)) →
      Event.after
        (⟨before, r, .confirmPair roomId host other wall mono boot expires⟩ : Event store) = after →
      rooms.Safe Q (f result)
        (past ++ [⟨before, r, .confirmPair roomId host other wall mono boot expires⟩]) after)
    (herror : ∀ e past' after, Q past' after (.error e)) :
    rooms.Safe Q
      ((.call (.confirmPair roomId host other wall mono boot expires) .ofExcept : Handler
        ConfirmResult) >>= f)
      past s := by
  have hlic' : Licensed s (.confirmPair roomId host other wall mono boot expires) := hlic
  refine Discipline.safe_call (D := rooms) hlic' ?_
  intro before r hgrow hinv hadm hinv' hgrow'
  rcases Table.confirmPair_cases r.conflicts roomId host other wall mono boot expires
    before.table with
    ⟨hx, -, hother, habsent⟩ | ⟨reply, hx, hne⟩
  · have hreply : (store.exec r (.confirmPair roomId host other wall mono boot expires) before).1 =
        .ok .confirmed := by
      simp [exec, execTable, hx]
    rw [hreply]
    refine h before r _ .confirmed hgrow hinv hgrow' hinv' (fun _ => ⟨hother, habsent, ?_⟩) rfl
    simp [exec, execTable, hx, Table.pairAt]
  · have hreply :
      (store.exec r (.confirmPair roomId host other wall mono boot expires) before).1 = reply := by
      simp [exec, execTable, hx]
    rw [hreply]
    cases reply with
    | error e => exact herror e _ _
    | ok result =>
      refine h before r _ result hgrow hinv hgrow' hinv' ?_ rfl
      rintro rfl
      exact absurd rfl hne

theorem safe_renewRoom {roomId : RoomId} {now expires : ℤ} {f : Bool → Handler α}
    (h : ∀ before r after renewed, Grows s before → Consistent before → Grows before after →
      Consistent after →
      rooms.Safe Q (f renewed) (past ++ [⟨before, r, .renewRoom roomId now expires⟩]) after) :
    rooms.Safe Q ((.call (.renewRoom roomId now expires) .done : Handler Bool) >>= f) past s := by
  refine Discipline.safe_call (D := rooms) trivial ?_
  intro before r hgrow hinv hadm hinv' hgrow'
  exact h before r _ _ hgrow hinv hgrow' hinv'

theorem safe_renewItems {roomId : RoomId} {ttl : ℤ} {sks : List SortKey} {f : Unit → Handler α}
    (hc : Consistent s)
    (h : ∀ past' after, past <+: past' → Grows s after → Consistent after →
      rooms.Safe Q (f ()) past' after) :
    rooms.Safe Q (Service.renewItems roomId ttl sks >>= f) past s := by
  induction sks generalizing past s with
  | nil => exact h past s (List.prefix_refl _) (Grows.refl s) hc
  | cons sk rest ih =>
    have hcall : rooms.Safe Q ((Prog.call (.renewItem roomId sk ttl) fun _ =>
        Service.renewItems roomId ttl rest : Handler Unit) >>= f) past s := by
      refine Discipline.safe_call (D := rooms) trivial ?_
      intro before r hgrow hinv hadm hinv' hgrow'
      exact ih hinv' fun past' after hpre hg =>
        h past' after ((List.prefix_append _ _).trans hpre) (hgrow.trans (hgrow'.trans hg))
    cases sk with
    | room => exact ih hc h
    | peer id => exact hcall
    | vip ip => exact hcall
    | name key => exact hcall
    | pair key => exact hcall

end Sangtachi.Control
