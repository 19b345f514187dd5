import Sangtachi.Lobby.Openings
import Sangtachi.Runner.InStep

/-! # The record lines

A line is written where the lobby records an attempt, where a session is connected for the first
time and where it ends. They account for every attempt and every pair, and each end follows its
beginning. -/
namespace Sangtachi.ControlRunner

open Sangtachi.BigEndian Sangtachi.Stun Sangtachi.Timers Sangtachi.Runner
open Sangtachi.Peer (SessionState SessionFailure isTerminal)
open Sangtachi.Lobby (Bytes Op LobbyAction LobbyEvent LobbyRole TimerName Account Entry Run opensOf
  notOpened SubmitRequest)
open Sangtachi.StunClient (Client)

variable {deps : RunnerDeps} {io : RunnerIo} {R R' : ControlRunner}

/-! ## Lines -/

def isEstablish (l : RecordLine) : Bool := l.kind = .establish

def isEnd (l : RecordLine) : Bool := l.kind = .ends

def lineOf (acc : Account) (l : RecordLine) : Bool :=
  isEstablish l && acc.records (.recordAttempt l.role l.peer l.result)

def unwritten (acc : Account) (x : U32 × Track) : Bool :=
  !x.2.connected && acc.counts (x.2.role, x.1)

/-- The line that says that the session of the pair is connected. -/
structure Begins (l : RecordLine) (attempt : ℕ) (role : LobbyRole) (peer : Option U32) : Prop where
  kind : l.kind = .establish
  result : l.result = "OK"
  attempt : l.attempt = attempt
  role : l.role = role
  peer : l.peer = peer

/-- The establish lines are numbered, and each end follows its beginning. -/
structure Log (records : List RecordLine) (last : ℕ) : Prop where
  numbers : (records.filter isEstablish).map (·.attempt) = List.range' 1 last
  after : ∀ as e bs, records = as ++ e :: bs → e.kind = .ends →
    ∃ l ∈ as, Begins l e.attempt e.role e.peer
  once : ((records.filter isEnd).map (·.attempt)).Nodup

variable {records : List RecordLine} {last : ℕ}

theorem Log.number (h : Log records last) {l : RecordLine} (hl : l ∈ records)
    (hkind : l.kind = .establish) :
    l.attempt < last + 1 := by
  have hmem : l.attempt ∈ List.range' 1 last := by
    rw [← h.numbers]
    exact List.mem_map_of_mem (List.mem_filter.mpr ⟨hl, decide_eq_true hkind⟩)
  rw [List.mem_range'_1] at hmem
  omega

theorem Log.ended (h : Log records last) {e : RecordLine} (he : e ∈ records)
    (hkind : e.kind = .ends) :
    ∃ l ∈ records, Begins l e.attempt e.role e.peer := by
  obtain ⟨as, bs, hsplit⟩ := List.append_of_mem he
  obtain ⟨l, hl, hbegins⟩ := h.after as e bs hsplit hkind
  exact ⟨l, hsplit ▸ List.mem_append_left _ hl, hbegins⟩

theorem Log.unique (h : Log records last) {l l' : RecordLine} (hl : l ∈ records)
    (hkind : l.kind = .establish) (hl' : l' ∈ records) (hkind' : l'.kind = .establish)
    (heq : l.attempt = l'.attempt) : l = l' := by
  have hnodup : ((records.filter isEstablish).map (·.attempt)).Nodup :=
    h.numbers ▸ List.nodup_range'
  exact List.inj_on_of_nodup_map hnodup (List.mem_filter.mpr ⟨hl, decide_eq_true hkind⟩)
    (List.mem_filter.mpr ⟨hl', decide_eq_true hkind'⟩) heq

theorem Log.follows (h : Log records last) {new : RecordLine}
    (hnew : new.kind = .ends → ∃ l ∈ records, Begins l new.attempt new.role new.peer)
    (as : List RecordLine) (e : RecordLine) (bs : List RecordLine)
    (hsplit : records ++ [new] = as ++ e :: bs) (hkind : e.kind = .ends) :
    ∃ l ∈ as, Begins l e.attempt e.role e.peer := by
  rcases List.eq_nil_or_concat bs with rfl | ⟨bs', b, rfl⟩
  · obtain ⟨rfl, hlast⟩ := List.append_inj' hsplit rfl
    obtain rfl := List.head_eq_of_cons_eq hlast
    exact hnew hkind
  · rw [List.concat_eq_append, ← List.cons_append, ← List.append_assoc] at hsplit
    exact h.after as e bs' (List.append_inj' hsplit rfl).1 hkind

theorem Log.establish (h : Log records last) {l : RecordLine} (hkind : l.kind = .establish)
    (hattempt : l.attempt = last + 1) :
    Log (records ++ [l]) (last + 1) where
  numbers := by
    have hone : [l].filter isEstablish = [l] := List.filter_cons_of_pos (decide_eq_true hkind)
    rw [List.filter_append, List.map_append, h.numbers, hone, List.map_singleton, hattempt,
      List.range'_1_concat, Nat.add_comm 1]
  after := h.follows fun hends => absurd (hkind.symm.trans hends) nofun
  once := by
    have hnone : [l].filter isEnd = [] := by
      apply List.filter_eq_nil_iff.mpr
      intro x hx
      rw [List.mem_singleton.mp hx]
      simp [isEnd, hkind]
    rw [List.filter_append, hnone, List.append_nil]
    exact h.once

theorem Log.ends (h : Log records last) {e : RecordLine} (hkind : e.kind = .ends)
    (hbegins : ∃ l ∈ records, Begins l e.attempt e.role e.peer)
    (hnew : ∀ e' ∈ records, e'.kind = .ends → e'.attempt ≠ e.attempt) :
    Log (records ++ [e]) last where
  numbers := by
    have hnone : [e].filter isEstablish = [] := by
      apply List.filter_eq_nil_iff.mpr
      intro x hx
      rw [List.mem_singleton.mp hx]
      simp [isEstablish, hkind]
    rw [List.filter_append, hnone, List.append_nil]
    exact h.numbers
  after := h.follows fun _ => hbegins
  once := by
    have hone : [e].filter isEnd = [e] := List.filter_cons_of_pos (decide_eq_true hkind)
    rw [List.filter_append, List.map_append, hone, List.map_singleton, ← List.concat_eq_append]
    refine h.once.concat fun hmem => ?_
    obtain ⟨e', he', heq⟩ := List.mem_map.mp hmem
    obtain ⟨hold, hends⟩ := List.mem_filter.mp he'
    exact hnew e' hold (of_decide_eq_true hends) heq

/-- The session of the pair has its establish line, and no end yet. -/
structure Standing (records : List RecordLine) (x : U32 × Track) : Prop where
  begins : ∃ l ∈ records, Begins l x.2.attempt x.2.role (some x.1)
  running : ∀ e ∈ records, e.kind = .ends → e.attempt ≠ x.2.attempt

/-- The lines are those of the attempts recorded and the sessions made so far. -/
structure Lines (R : ControlRunner) : Prop extends Log R.records R.lastAttempt where
  roles : (∀ l ∈ R.records, l.role ≠ .none) ∧ ∀ x ∈ R.opened, x.1 ≠ .none
  keys : (R.tracks.map (·.1)).Nodup
  known : ∀ x ∈ R.tracks, (x.2.role, x.1) ∈ R.opened
  account : ∀ acc : Account, R.records.countP (lineOf acc) + R.tracks.countP (unwritten acc) =
    R.carried.countP acc.records + R.opened.countP acc.counts
  connected : ∀ x ∈ R.tracks, x.2.connected = true → Standing R.records x
  settled : ∀ l ∈ R.records, l.kind = .establish → l.result = "OK" →
    (∃ e ∈ R.records, e.kind = .ends ∧ e.attempt = l.attempt) ∨
      ∃ x ∈ R.tracks, x.2.connected = true ∧ x.2.attempt = l.attempt

theorem Lines.addRole (h : R.Lines) {new : RecordLine} (hnew : new.role ≠ .none) :
    ∀ l ∈ R.records ++ [new], l.role ≠ .none := by
  intro l hl
  rcases List.mem_append.mp hl with hold | hlast
  · exact h.roles.1 l hold
  · rw [List.mem_singleton.mp hlast]
    exact hnew

theorem Standing.establish {x : U32 × Track} (h : Standing records x) {l : RecordLine}
    (hkind : l.kind = .establish) :
    Standing (records ++ [l]) x where
  begins := by
    obtain ⟨l', hl', hbegins⟩ := h.begins
    exact ⟨l', List.mem_append_left _ hl', hbegins⟩
  running e he hends := by
    rcases List.mem_append.mp he with hold | hnew
    · exact h.running e hold hends
    · rw [List.mem_singleton.mp hnew, hkind] at hends
      cases hends

/-! ## Tracks -/

theorem keys_filter {tracks : List (U32 × Track)} (h : (tracks.map (·.1)).Nodup) (peer : U32) :
    ((tracks.filter (·.1 ≠ peer)).map (·.1)).Nodup := h.sublist (List.filter_sublist.map _)

theorem setTrack_keys {tracks : List (U32 × Track)} (h : (tracks.map (·.1)).Nodup) (peer : U32)
    (track : Track) :
    ((tracks.filter (·.1 ≠ peer) ++ [(peer, track)]).map (·.1)).Nodup := by
  rw [List.map_append, List.map_singleton, ← List.concat_eq_append]
  refine (keys_filter h peer).concat fun hmem => ?_
  obtain ⟨x, hx, hid⟩ := List.mem_map.mp hmem
  exact of_decide_eq_true (List.mem_filter.mp hx).2 hid

theorem count_track {tracks : List (U32 × Track)} (h : (tracks.map (·.1)).Nodup) {peer : U32}
    {track : Track} (hfound : tracks.lookup peer = some track) (f : U32 × Track → Bool) :
    tracks.countP f =
      (tracks.filter (·.1 ≠ peer)).countP f + (if f (peer, track) then 1 else 0) := by
  obtain ⟨front, back, rfl, -⟩ := List.lookup_eq_some_iff.mp hfound
  rw [List.map_append, List.map_cons, List.nodup_append, List.nodup_cons] at h
  obtain ⟨-, ⟨hback, -⟩, hfront⟩ := h
  have hkept : ∀ xs : List (U32 × Track), peer ∉ xs.map (·.1) → xs.filter (·.1 ≠ peer) = xs := by
    intro xs hxs
    refine List.filter_eq_self.mpr fun x hx => decide_eq_true fun heq =>
      hxs (heq ▸ List.mem_map_of_mem hx)
  have hnot : peer ∉ front.map (·.1) := fun hmem => hfront _ hmem _ List.mem_cons_self rfl
  have hself : ((peer, track) :: back).filter (·.1 ≠ peer) = back := by
    rw [List.filter_cons_of_neg (by simp), hkept back hback]
  rw [List.filter_append, hkept front hnot, hself, List.countP_append, List.countP_append,
    List.countP_cons]
  omega

theorem lookup_mem {tracks : List (U32 × Track)} {peer : U32} {track : Track}
    (hfound : tracks.lookup peer = some track) :
    (peer, track) ∈ tracks := by
  obtain ⟨front, back, rfl, -⟩ := List.lookup_eq_some_iff.mp hfound
  exact List.mem_append_right _ List.mem_cons_self

theorem mem_filter_track {tracks : List (U32 × Track)} {x : U32 × Track} {peer : U32} :
    x ∈ tracks.filter (·.1 ≠ peer) ↔ x ∈ tracks ∧ x.1 ≠ peer := by
  rw [List.mem_filter, decide_eq_true_eq]

/-! ## What is written -/

theorem Lines.attempt (h : R.Lines) {role : LobbyRole} (peer : Option U32) {result : String}
    (hrole : role ≠ .none) (hresult : result ≠ "OK") :
    Lines
      (establish { R with carried := R.carried ++ [.recordAttempt role peer result] } role peer
        result none none) where
  toLog := h.toLog.establish rfl rfl
  roles := ⟨h.addRole hrole, h.roles.2⟩
  keys := h.keys
  known := h.known
  account acc := by
    have haccount := h.account acc
    have hline : ∀ l : RecordLine, l.kind = .establish → l.role = role → l.peer = peer →
      l.result = result →
        lineOf acc l = acc.records (.recordAttempt role peer result) := by
      rintro l hkind rfl rfl rfl
      simp [lineOf, isEstablish, hkind]
    show (R.records ++ [_]).countP (lineOf acc) + R.tracks.countP (unwritten acc) =
      (R.carried ++ [_]).countP acc.records + R.opened.countP acc.counts
    rw [List.countP_append, List.countP_append, List.countP_singleton, List.countP_singleton,
      hline _ rfl rfl rfl rfl]
    omega
  connected x hx hconnected := (h.connected x hx hconnected).establish rfl
  settled l hl hkind hok := by
    rcases List.mem_append.mp hl with hold | hnew
    · rcases h.settled l hold hkind hok with ⟨e, he, hend⟩ | hlive
      · exact .inl ⟨e, List.mem_append_left _ he, hend⟩
      · exact .inr hlive
    · rw [List.mem_singleton.mp hnew] at hok
      exact absurd hok hresult

theorem recordResult_ok (event : Lobby.SessionEvent) (connected : Bool) :
    recordResult event connected ≠ "OK" := by
  unfold recordResult failureToken
  split_ifs
  · cases event.failure.getD .tunnelDropped <;> decide
  · decide
  · decide
  · decide

theorem lineOf_track (acc : Account) {l : RecordLine} {peer : U32} {track : Track}
    (hkind : l.kind = .establish) (hrole : l.role = track.role) (hpeer : l.peer = some peer) :
    lineOf acc l = acc.counts (track.role, peer) := by
  unfold lineOf isEstablish
  rw [hkind, hrole, hpeer]
  cases acc with
  | player => rfl
  | host => simp [Account.records, Account.counts]
  | pair peerId =>
    simp only [Account.records, Account.counts, Option.some.injEq, Prod.mk.injEq, decide_true,
      Bool.true_and]

theorem track_unique {tracks : List (U32 × Track)} (h : (tracks.map (·.1)).Nodup)
    {x y : U32 × Track} (hx : x ∈ tracks) (hy : y ∈ tracks) (heq : x.1 = y.1) :
    x = y := List.inj_on_of_nodup_map h hx hy heq

variable {peer : U32} {track : Track} {rttUs : Option U64} {setupMs : Option ℕ} {result : String}

theorem Lines.connect (h : R.Lines) (hfound : R.tracks.lookup peer = some track)
    (hfirst : track.connected = false) :
    Lines ((R.establish track.role (some peer) "OK" rttUs setupMs).setTrack peer
      { track with connected := true, attempt := R.lastAttempt + 1 }) where
  toLog := h.toLog.establish rfl rfl
  roles := ⟨h.addRole (h.roles.2 _ (h.known _ (lookup_mem hfound))), h.roles.2⟩
  keys := setTrack_keys h.keys peer _
  known x hx := by
    rcases List.mem_append.mp hx with hold | hnew
    · exact h.known x (mem_filter_track.mp hold).1
    · rw [List.mem_singleton.mp hnew]
      exact h.known (peer, track) (lookup_mem hfound)
  account acc := by
    have haccount := h.account acc
    have hold : unwritten acc (peer, track) = acc.counts (track.role, peer) := by
      unfold unwritten
      rw [hfirst]
      rfl
    rw [count_track h.keys hfound, hold] at haccount
    show (R.records ++ [_]).countP (lineOf acc) +
      (R.tracks.filter (fun x : U32 × Track => x.1 ≠ peer) ++ [_]).countP (unwritten acc) =
      R.carried.countP acc.records + R.opened.countP acc.counts
    rw [List.countP_append, List.countP_append, List.countP_singleton, List.countP_singleton,
      lineOf_track acc rfl rfl rfl]
    simp only [unwritten, Bool.not_true, Bool.false_and, Bool.false_eq_true, if_false]
    omega
  connected x hx hconnected := by
    rcases List.mem_append.mp hx with hold | hnew
    · exact (h.connected x (mem_filter_track.mp hold).1 hconnected).establish rfl
    · rw [List.mem_singleton.mp hnew]
      refine ⟨⟨_, List.mem_append_right _ (List.mem_singleton_self _), rfl, rfl, rfl, rfl, rfl⟩, ?_⟩
      intro e he hends heq
      rcases List.mem_append.mp he with hold | hlast
      · obtain ⟨l, hl, hbegins⟩ := h.ended hold hends
        have hnumber := h.number hl hbegins.kind
        rw [hbegins.attempt, heq] at hnumber
        exact absurd hnumber (Nat.lt_irrefl _)
      · rw [List.mem_singleton.mp hlast] at hends
        cases hends
  settled l hl hkind hok := by
    rcases List.mem_append.mp hl with hold | hnew
    · rcases h.settled l hold hkind hok with ⟨e, he, hend⟩ | ⟨x, hx, hconnected, heq⟩
      · exact .inl ⟨e, List.mem_append_left _ he, hend⟩
      · refine .inr
          ⟨x, List.mem_append_left _ (mem_filter_track.mpr ⟨hx, fun hpeer => ?_⟩), hconnected, heq⟩
        rw [track_unique h.keys hx (lookup_mem hfound) hpeer, hfirst] at hconnected
        cases hconnected
    · rw [List.mem_singleton.mp hnew]
      exact .inr ⟨_, List.mem_append_right _ (List.mem_singleton_self _), rfl, rfl⟩

theorem Lines.finish (h : R.Lines) (hfound : R.tracks.lookup peer = some track)
    (hconnected : track.connected = true) :
    Lines ((R.recordEnd track.attempt track.role peer result rttUs).dropTrack peer) where
  toLog := by
    have hstanding := h.connected _ (lookup_mem hfound) hconnected
    exact h.toLog.ends rfl hstanding.begins hstanding.running
  roles := ⟨h.addRole (h.roles.2 _ (h.known _ (lookup_mem hfound))), h.roles.2⟩
  keys := keys_filter h.keys peer
  known x hx := h.known x (mem_filter_track.mp hx).1
  account acc := by
    have haccount := h.account acc
    have hold : unwritten acc (peer, track) = false := by
      unfold unwritten
      rw [hconnected]
      rfl
    rw [count_track h.keys hfound, hold] at haccount
    show (R.records ++ [_]).countP (lineOf acc) +
      (R.tracks.filter (·.1 ≠ peer)).countP (unwritten acc) =
      R.carried.countP acc.records + R.opened.countP acc.counts
    rw [List.countP_append, List.countP_singleton, if_neg nofun]
    exact haccount
  connected x hx hlive := by
    obtain ⟨hmem, hother⟩ := mem_filter_track.mp hx
    obtain ⟨⟨l, hl, hbegins⟩, hrunning⟩ := h.connected x hmem hlive
    refine ⟨⟨l, List.mem_append_left _ hl, hbegins⟩, fun e he hends heq => ?_⟩
    rcases List.mem_append.mp he with hold | hnew
    · exact hrunning e hold hends heq
    · -- one number is not that of two sessions
      rw [List.mem_singleton.mp hnew] at heq
      obtain ⟨l', hl', hbegins'⟩ := (h.connected _ (lookup_mem hfound) hconnected).begins
      have hsame := h.unique hl' hbegins'.kind hl hbegins.kind
        (hbegins'.attempt.trans (heq.trans hbegins.attempt.symm))
      have hpeer := hbegins'.peer
      rw [hsame, hbegins.peer] at hpeer
      exact hother (Option.some.inj hpeer)
  settled l hl hkind hok := by
    rcases List.mem_append.mp hl with hold | hnew
    · rcases h.settled l hold hkind hok with ⟨e, he, hend⟩ | ⟨x, hx, hlive, heq⟩
      · exact .inl ⟨e, List.mem_append_left _ he, hend⟩
      · by_cases hpeer : x.1 = peer
        · rw [track_unique h.keys hx (lookup_mem hfound) hpeer] at heq
          exact .inl ⟨_, List.mem_append_right _ (List.mem_singleton_self _), rfl, heq⟩
        · exact .inr ⟨x, mem_filter_track.mpr ⟨hx, hpeer⟩, hlive, heq⟩
    · rw [List.mem_singleton.mp hnew] at hkind
      cases hkind

theorem Lines.abort (h : R.Lines) (hfound : R.tracks.lookup peer = some track)
    (hconnected : track.connected = false) (hresult : result ≠ "OK") :
    Lines ((R.establish track.role (some peer) result rttUs none).dropTrack peer) where
  toLog := h.toLog.establish rfl rfl
  roles := ⟨h.addRole (h.roles.2 _ (h.known _ (lookup_mem hfound))), h.roles.2⟩
  keys := keys_filter h.keys peer
  known x hx := h.known x (mem_filter_track.mp hx).1
  account acc := by
    have haccount := h.account acc
    have hold : unwritten acc (peer, track) = acc.counts (track.role, peer) := by
      unfold unwritten
      rw [hconnected]
      rfl
    rw [count_track h.keys hfound, hold] at haccount
    show (R.records ++ [_]).countP (lineOf acc) +
      (R.tracks.filter (·.1 ≠ peer)).countP (unwritten acc) =
      R.carried.countP acc.records + R.opened.countP acc.counts
    rw [List.countP_append, List.countP_singleton, lineOf_track acc rfl rfl rfl]
    omega
  connected x hx hlive := (h.connected x (mem_filter_track.mp hx).1 hlive).establish rfl
  settled l hl hkind hok := by
    rcases List.mem_append.mp hl with hold | hnew
    · rcases h.settled l hold hkind hok with ⟨e, he, hend⟩ | ⟨x, hx, hlive, heq⟩
      · exact .inl ⟨e, List.mem_append_left _ he, hend⟩
      · refine .inr ⟨x, mem_filter_track.mpr ⟨hx, fun hpeer => ?_⟩, hlive, heq⟩
        rw [track_unique h.keys hx (lookup_mem hfound) hpeer, hconnected] at hlive
        cases hlive
    · rw [List.mem_singleton.mp hnew] at hok
      exact absurd hok hresult

theorem Lines.record (h : R.Lines) (queued : QueuedEvent) : (R.record queued).Lines := by
  unfold ControlRunner.record
  dsimp only
  split
  case h_1 => exact h
  case h_2 track hfound =>
    split_ifs with hfirst hover hconnected
    · exact h.connect hfound hfirst.2
    · exact h
    · exact h.finish hfound hconnected
    · exact h.abort hfound (by simpa using hconnected) (recordResult_ok _ _)

theorem Lines.made (h : R.Lines) {role : LobbyRole} (setupBaseMs : ℕ) (hrole : role ≠ .none)
    (hnew : peer ∉ R.opened.map (·.2)) :
    Lines
      (setTrack { R with opened := R.opened ++ [(role, peer)] } peer
        ⟨role, setupBaseMs, false, 0⟩) := by
  have hkept : R.tracks.filter (·.1 ≠ peer) = R.tracks := by
    refine List.filter_eq_self.mpr fun x hx => decide_eq_true fun heq => hnew ?_
    rw [← heq]
    exact List.mem_map_of_mem (f := (·.2)) (h.known x hx)
  have htracks :
    (setTrack { R with opened := R.opened ++ [(role, peer)] } peer
      ⟨role, setupBaseMs, false, 0⟩).tracks =
      R.tracks ++ [(peer, ⟨role, setupBaseMs, false, 0⟩)] := congrArg (· ++ _) hkept
  constructor
  case toLog => exact h.toLog
  case roles =>
    refine ⟨h.roles.1, fun x hx => ?_⟩
    rcases List.mem_append.mp hx with hold | hlast
    · exact h.roles.2 x hold
    · rw [List.mem_singleton.mp hlast]
      exact hrole
  case keys => exact setTrack_keys h.keys peer _
  case known =>
    intro x hx
    rw [htracks] at hx
    rcases List.mem_append.mp hx with hold | hlast
    · exact List.mem_append_left _ (h.known x hold)
    · rw [List.mem_singleton.mp hlast]
      exact List.mem_append_right _ (List.mem_singleton_self _)
  case account =>
    intro acc
    have haccount := h.account acc
    rw [htracks]
    show R.records.countP (lineOf acc) + _ =
      R.carried.countP acc.records + (R.opened ++ [_]).countP acc.counts
    rw [List.countP_append, List.countP_append, List.countP_singleton, List.countP_singleton]
    simp only [unwritten, Bool.not_false, Bool.true_and]
    omega
  case connected =>
    intro x hx hconnected
    rw [htracks] at hx
    rcases List.mem_append.mp hx with hold | hlast
    · exact h.connected x hold hconnected
    · rw [List.mem_singleton.mp hlast] at hconnected
      cases hconnected
  case settled =>
    intro l hl hkind hok
    rw [htracks]
    rcases h.settled l hl hkind hok with hend | ⟨x, hx, hlive⟩
    · exact .inl hend
    · exact .inr ⟨x, List.mem_append_left _ hx, hlive⟩

/-! ## What the lobby is told -/

/-- Nothing is written, and no session is made. -/
structure SameLines (R R' : ControlRunner) : Prop where
  records : R'.records = R.records
  lastAttempt : R'.lastAttempt = R.lastAttempt
  tracks : R'.tracks = R.tracks
  carried : R'.carried = R.carried
  opened : R'.opened = R.opened

/-- The lobby is told of one event at most, and its actions wait behind the others. -/
structure Tells (io : RunnerIo) (P : LobbyEvent → Prop) (R R' : ControlRunner) : Prop where
  lines : SameLines R R'
  lobby : (R'.lobby = R.lobby ∧ R'.queue = R.queue) ∨
    ∃ e, P e ∧ R'.lobby = R.lobby.step io.lobby e ∧
      R'.queue = R.queue ++ (R.lobby.step io.lobby e).actions

variable {P : LobbyEvent → Prop} {R₀ : ControlRunner}

theorem Lines.same (h : R.Lines) (hsame : SameLines R R') : R'.Lines := by
  obtain ⟨hrecords, hlast, htracks, hcarried, hopened⟩ := hsame
  obtain ⟨hlog, hroles, hkeys, hknown, haccount, hconnected, hsettled⟩ := h
  constructor
  case roles =>
    rw [hrecords, hopened]
    exact hroles
  case toLog =>
    rw [hrecords, hlast]
    exact hlog
  case keys =>
    rw [htracks]
    exact hkeys
  case known =>
    rw [htracks, hopened]
    exact hknown
  case account =>
    rw [hrecords, htracks, hcarried, hopened]
    exact haccount
  case connected =>
    rw [hrecords, htracks]
    exact hconnected
  case settled =>
    rw [hrecords, htracks]
    exact hsettled

theorem tells_none (hsame : R' = { R with
    stun := R'.stun, stunReported := R'.stunReported, events := R'.events, running :=
      R'.running, timers := R'.timers,
    dropStunParse := R'.dropStunParse, queries := R'.queries, inFlight := R'.inFlight, rejected :=
      R'.rejected }) :
    Tells io P R R' := by
  rw [hsame]
  exact ⟨⟨rfl, rfl, rfl, rfl, rfl⟩, .inl ⟨rfl, rfl⟩⟩

theorem tells_enter {e : LobbyEvent} (he : P e) : Tells io P R (R.enter io e) :=
  ⟨⟨rfl, rfl, rfl, rfl, rfl⟩, .inr ⟨e, he, rfl, rfl⟩⟩

theorem Tells.behind (h : Tells io P R R') (hquiet : Tells io (fun _ => False) R₀ R) :
    Tells io P R₀ R' := by
  obtain ⟨hlobby, hqueue⟩ := hquiet.lobby.resolve_right fun ⟨_, hfalse, _⟩ => hfalse
  obtain ⟨a, b, c, d, e⟩ := h.lines
  obtain ⟨a', b', c', d', e'⟩ := hquiet.lines
  refine ⟨⟨a.trans a', b.trans b', c.trans c', d.trans d', e.trans e'⟩, ?_⟩
  rw [← hlobby, ← hqueue]
  exact h.lobby

theorem checkStunDone_tells (hP : ∀ ok mappings, P (.stunDone ok mappings)) :
    Tells io P R (R.checkStunDone io) := by
  unfold checkStunDone
  cases R.stun with
  | none => exact tells_none rfl
  | some c =>
    dsimp only
    split_ifs
    · exact tells_none rfl
    · exact (tells_enter (hP _ _)).behind (tells_none rfl)

theorem dropStun_tells : Tells io P R (R.dropStun deps) := by
  unfold dropStun
  cases R.stun with
  | none => exact tells_none rfl
  | some c => exact tells_none rfl

theorem startStun_tells (hP : ∀ ok mappings, P (.stunDone ok mappings)) :
    Tells io P R (R.startStun deps io) := by
  unfold startStun
  exact (checkStunDone_tells hP).behind ((tells_none rfl).behind dropStun_tells)

theorem onStunDatagram_tells (hP : ∀ ok mappings, P (.stunDone ok mappings)) (payload : List U8) :
    Tells io P R (R.onStunDatagram deps io payload) := by
  unfold onStunDatagram
  cases R.client with
  | none => exact tells_none rfl
  | some c => exact (checkStunDone_tells hP).behind (tells_none rfl)

theorem submit_tells (hP : P .submitDropped) (request : SubmitRequest) :
    Tells io P R (R.submit deps io request) := by
  unfold submit
  split
  · split_ifs
    · exact tells_none rfl
    · exact tells_enter hP
  · exact tells_enter hP

theorem run_tells : Tells io P R (R.run []) :=
  ⟨⟨rfl, rfl, rfl, rfl, rfl⟩, .inl ⟨rfl, List.append_nil _⟩⟩

theorem onTimer_tells (hP : ∀ ok mappings, P (.stunDone ok mappings)) (htimer : ∀ n, P (.timer n))
    (name : Bytes) :
    Tells io P R (R.onTimer deps io name) := by
  unfold onTimer
  by_cases hlobby : ownsTimer name = true
  · rw [if_pos hlobby]
    split
    · exact tells_enter (htimer _)
    · exact run_tells
  · rw [if_neg hlobby]
    cases R.client with
    | none => exact tells_none rfl
    | some c =>
      dsimp only
      split_ifs
      · exact (checkStunDone_tells hP).behind (tells_none rfl)
      · exact tells_none rfl

theorem input_tells (deps : RunnerDeps) (io : RunnerIo) (R : ControlRunner) (i : Input) :
    Tells io (fun e => ∀ peerId, e ≠ .sessionOpenFailed peerId) R (R.input deps io i) := by
  have hP : ∀ ok mappings peerId,
    LobbyEvent.stunDone ok mappings ≠ .sessionOpenFailed peerId := nofun
  cases i with
  | start => exact tells_enter nofun
  | command command => exact tells_enter nofun
  | response response => exact (tells_enter nofun).behind (tells_none rfl)
  | datagram payload => exact onStunDatagram_tells hP payload
  | expired t => exact (onTimer_tells hP (fun _ _ => nofun) t.name).behind (tells_none rfl)
  | others timers => exact tells_none rfl
  | tunnel => exact tells_none rfl
  | flush => exact run_tells
  | shutdown => exact tells_enter nofun

/-! ## The ledger -/

/-- The run of the lobby that the runner has led it through. What the lobby asked for was carried
out or waits, and of each session that was to be opened it is known what became of it. -/
structure Ledger (R : ControlRunner) (h : List Entry) : Prop where
  run : Run h R.lobby
  carries : Lobby.said h = R.carried ++ R.queue
  waits : R.lobby.Opened (opensOf R.queue)
  opens : ∀ acc : Account, (opensOf R.carried).countP acc.counts =
    R.opened.countP acc.counts + (notOpened h).countP acc.counts

variable {h : List Entry} {e : LobbyEvent}

theorem Ledger.quiet (hledger : R.Ledger h) (hlobby : R'.lobby = R.lobby)
    (hqueue : R'.queue = R.queue) (hcarried : R'.carried = R.carried)
    (hopened : R'.opened = R.opened) : R'.Ledger h := by
  obtain ⟨hrun, hsaid, hwaits, hopens⟩ := hledger
  constructor
  case run =>
    rw [hlobby]
    exact hrun
  case carries =>
    rw [hcarried, hqueue]
    exact hsaid
  case waits =>
    rw [hlobby, hqueue]
    exact hwaits
  case opens =>
    rw [hcarried, hopened]
    exact hopens

theorem Ledger.event (hledger : R.Ledger h) (hlines : SameLines R R')
    (hlobby : R'.lobby = R.lobby.step io.lobby e)
    (hqueue : R'.queue = R.queue ++ (R.lobby.step io.lobby e).actions)
    (hunopened : R.lobby.unopened e = []) (hwaits : R'.lobby.Opened (opensOf R'.queue)) :
    ∃ h', R'.Ledger h' := by
  refine ⟨h ++ [⟨io.lobby, e, R.lobby, R'.lobby⟩], ?_, ?_, hwaits, fun acc => ?_⟩
  · rw [hlobby]
    exact hledger.run.event io.lobby e
  · unfold Lobby.said
    rw [List.flatMap_append, hqueue, hlines.carried, ← List.append_assoc, ← hledger.carries]
    show _ ++ (R'.lobby.actions ++ []) = _
    rw [List.append_nil, hlobby]
    rfl
  · unfold notOpened
    rw [List.flatMap_append, hlines.carried, hlines.opened, List.countP_append]
    show _ = _ + (_ + (R.lobby.unopened e ++ []).countP _)
    rw [hunopened]
    exact hledger.opens acc

/-- With nothing waiting, any event opens active pairs only. -/
theorem Ledger.told (hledger : R.Ledger h) (hqueue : R.queue = [])
    (htells : Tells io (fun e => ∀ peerId, e ≠ .sessionOpenFailed peerId) R R') :
    ∃ h', R'.Ledger h' := by
  rcases htells.lobby with ⟨hlobby, hsame⟩ | ⟨e, he, hlobby, hactions⟩
  · exact ⟨h, hledger.quiet hlobby hsame htells.lines.carried htells.lines.opened⟩
  · refine hledger.event htells.lines hlobby hactions ?_ ?_
    · cases e with
      | sessionOpenFailed peerId => exact absurd rfl (he peerId)
      | _ => rfl
    · rw [hactions, hqueue, List.nil_append, hlobby]
      exact (Lobby.step_opens (Lobby.run_invariant hledger.run) io.lobby e).1

/-- While actions wait, the lobby is told of nothing that ends a pair but that its session did not
open. -/
theorem Ledger.nested (hledger : R.Ledger h)
    (htells : Tells io (fun e => Lobby.isNested e = true ∧ ∀ peerId, e ≠ .sessionOpenFailed peerId)
      R R') : ∃ h', R'.Ledger h' := by
  rcases htells.lobby with ⟨hlobby, hsame⟩ | ⟨e, ⟨hnested, he⟩, hlobby, hactions⟩
  · exact ⟨h, hledger.quiet hlobby hsame htells.lines.carried htells.lines.opened⟩
  · have hinv := Lobby.run_invariant hledger.run
    refine hledger.event htells.lines hlobby hactions ?_ ?_
    · cases e with
      | sessionOpenFailed peerId => exact absurd rfl (he peerId)
      | _ => rfl
    · have hreply : Lobby.isReply e = false := by
        cases e with
        | reply => cases hnested
        | _ => rfl
      rw [hactions, hlobby, Lobby.opensOf_append, (Lobby.step_opens hinv io.lobby e).2 hreply,
        List.append_nil]
      exact hledger.waits.nested hinv hnested fun peerId heq => absurd heq (he peerId)

/-! ## Rounds of the loop -/

theorem Ledger.taken (hledger : R.Ledger h) {a : LobbyAction} {rest : List LobbyAction}
    (hqueue : R.queue = a :: rest) (hopens : opensOf [a] = []) :
    Ledger { R with queue := rest, carried := R.carried ++ [a] } h where
  run := hledger.run
  carries := by
    rw [hledger.carries, hqueue]
    exact (List.append_assoc R.carried [a] rest).symm
  waits := by
    have hwaits := hledger.waits
    rw [hqueue, show a :: rest = [a] ++ rest from rfl, Lobby.opensOf_append, hopens] at hwaits
    exact hwaits
  opens acc := by
    show (opensOf (R.carried ++ [a])).countP _ = _
    rw [Lobby.opensOf_append, hopens, List.append_nil]
    exact hledger.opens acc

theorem Ledger.openSession (hledger : R.Ledger h) {request : Tunnel.NewSession} {name : Bytes}
    {role : LobbyRole} {setupBaseMs : ℕ} {rest : List LobbyAction}
    (hqueue : R.queue = .openSession request name role setupBaseMs :: rest) :
    ∃ h', Ledger (ControlRunner.openSession io
      { R with queue := rest, carried := R.carried ++ [.openSession request name role setupBaseMs] }
        request.peerId role setupBaseMs) h' := by
  have hwaits := hledger.waits
  rw [hqueue] at hwaits
  obtain ⟨hnodup, hpaired⟩ := hwaits
  obtain ⟨hfresh, hnodup⟩ := List.nodup_cons.mp hnodup
  obtain ⟨hrole, hactive⟩ := hpaired _ List.mem_cons_self
  have hrest : R.lobby.Opened (opensOf rest) :=
    ⟨hnodup, fun x hx => hpaired x (List.mem_cons_of_mem _ hx)⟩
  have hcarried : Lobby.said h =
    (R.carried ++ [.openSession request name role setupBaseMs]) ++ rest := by
    rw [hledger.carries, hqueue, List.append_assoc, List.singleton_append]
  have hcount : ∀ acc : Account,
    (opensOf (R.carried ++ [.openSession request name role setupBaseMs])).countP acc.counts =
      R.opened.countP acc.counts + (notOpened h).countP acc.counts +
        [(role, request.peerId)].countP acc.counts := by
    intro acc
    rw [Lobby.opensOf_append, List.countP_append, hledger.opens acc]
    rfl
  unfold ControlRunner.openSession
  dsimp only
  split_ifs
  · refine ⟨h, hledger.run, hcarried, hrest, fun acc => ?_⟩
    show (opensOf (R.carried ++ [_])).countP _ = (R.opened ++ [(role, request.peerId)]).countP _ + _
    rw [List.countP_append, hcount acc]
    omega
  · have hinv := Lobby.run_invariant hledger.run
    have hunopened : R.lobby.unopened (.sessionOpenFailed request.peerId) =
      [(role, request.peerId)] := by
      unfold Lobby.unopened
      dsimp only
      rw [if_pos hactive, ← hrole]
    have hsilent := (Lobby.step_opens hinv io.lobby (.sessionOpenFailed request.peerId)).2 rfl
    refine ⟨h ++ [⟨io.lobby, .sessionOpenFailed request.peerId, R.lobby, _⟩],
      hledger.run.event io.lobby _, ?_, ?_, fun acc => ?_⟩
    · unfold Lobby.said
      rw [List.flatMap_append]
      show Lobby.said h ++
        ((R.lobby.step io.lobby (.sessionOpenFailed request.peerId)).actions ++ []) =
        (R.carried ++ [_]) ++
          (rest ++ (R.lobby.step io.lobby (.sessionOpenFailed request.peerId)).actions)
      rw [hcarried, List.append_nil, List.append_assoc]
    · show Lobby.Opened (R.lobby.step io.lobby (.sessionOpenFailed request.peerId))
        (opensOf (rest ++ (R.lobby.step io.lobby (.sessionOpenFailed request.peerId)).actions))
      rw [Lobby.opensOf_append, hsilent, List.append_nil]
      refine hrest.nested hinv rfl fun peerId heq => ?_
      obtain rfl := LobbyEvent.sessionOpenFailed.inj heq
      exact hfresh
    · unfold notOpened
      rw [List.flatMap_append, List.countP_append]
      show _ = R.opened.countP _ +
        (_ + (R.lobby.unopened (.sessionOpenFailed request.peerId) ++ []).countP _)
      rw [hunopened, List.append_nil]
      exact (hcount acc).trans (Nat.add_assoc _ _ _)

/-- An action that makes no session and writes no line. -/
def isOther : LobbyAction → Bool
  | .openSession _ _ _ _ | .recordAttempt _ _ _ => false
  | _ => true

theorem execute_tells (deps : RunnerDeps) (io : RunnerIo) (R : ControlRunner) {a : LobbyAction}
    (ha : isOther a = true) :
    Tells io (fun e => Lobby.isNested e = true ∧ ∀ peerId, e ≠ .sessionOpenFailed peerId) R
      (R.execute deps io a) := by
  have hdone : ∀ ok mappings, Lobby.isNested (.stunDone ok mappings) = true ∧
      ∀ peerId,
        LobbyEvent.stunDone ok mappings ≠ .sessionOpenFailed peerId := fun _ _ => ⟨rfl, nofun⟩
  cases a with
  | submitRequest request => exact submit_tells ⟨rfl, nofun⟩ request
  | startStun => exact startStun_tells hdone
  | cancelStun => exact dropStun_tells
  | armTimer name delayMs =>
    show Tells io _ R (R.armTimer io (nameOf name) delayMs)
    unfold armTimer
    split
    · exact tells_none rfl
    · exact tells_none rfl
  | openSession => cases ha
  | recordAttempt => cases ha
  | _ => exact tells_none rfl

theorem isOther_opens {a : LobbyAction} (ha : isOther a = true) : opensOf [a] = [] := by
  cases a with
  | openSession => cases ha
  | _ => rfl

theorem turn_ledger (hledger : R.Ledger h) : ∃ h', (R.turn deps io).Ledger h' := by
  unfold turn
  split
  case h_1 action rest hqueue =>
    by_cases hother : isOther action = true
    · exact (hledger.taken hqueue (isOther_opens hother)).nested (execute_tells deps io _ hother)
    · cases action with
      | openSession request name role setupBaseMs => exact hledger.openSession hqueue
      | recordAttempt role peer result =>
        exact ⟨h, (hledger.taken hqueue rfl).quiet rfl rfl rfl rfl⟩
      | _ => exact absurd rfl hother
  case h_2 hqueue =>
    split
    case h_1 queued rest hevents =>
      obtain ⟨tracks, lastAttempt, records, hrecord⟩ := record_same { R with events := rest } queued
      have hrecorded : Ledger (ControlRunner.record { R with events := rest } queued) h := by
        rw [hrecord]
        exact hledger.quiet rfl rfl rfl rfl
      have hidle : (ControlRunner.record { R with events := rest } queued).queue = [] := by
        rw [hrecord]
        exact hqueue
      exact hrecorded.told hidle (tells_enter nofun)
    case h_2 => exact ⟨h, hledger.quiet rfl rfl rfl rfl⟩

theorem Lines.taken (h : R.Lines) {a : LobbyAction} {rest : List LobbyAction}
    (ha : ∀ acc : Account, acc.records a = false) :
    Lines { R with queue := rest, carried := R.carried ++ [a] } := by
  refine ⟨h.toLog, h.roles, h.keys, h.known, fun acc => ?_, h.connected, h.settled⟩
  show _ = (R.carried ++ [a]).countP _ + R.opened.countP acc.counts
  rw [List.countP_append, List.countP_singleton, ha acc, if_neg nofun]
  exact h.account acc

theorem turn_lines (hfailures : ∀ a ∈ R.queue, Lobby.RecordsFailure a)
    (hroles : ∀ x ∈ opensOf R.queue, x.1 ≠ .none) (hlines : (R.opened.map (·.2)).Nodup → R.Lines)
    (hnodup : ((R.turn deps io).opened.map (·.2)).Nodup) : (R.turn deps io).Lines := by
  revert hnodup
  unfold turn
  split
  case h_1 action rest hqueue =>
    by_cases hother : isOther action = true
    · have htells :=
        (execute_tells deps io
          { R with queue := rest, carried := R.carried ++ [action] } hother).lines
      intro hnodup
      rw [htells.opened] at hnodup
      refine ((hlines hnodup).taken fun acc => ?_).same htells
      cases action with
      | recordAttempt => cases hother
      | _ => cases acc <;> rfl
    · cases action with
      | openSession request name role setupBaseMs =>
        show ((ControlRunner.openSession io _ request.peerId role setupBaseMs).opened.map
          (·.2)).Nodup →
          (ControlRunner.openSession io _ request.peerId role setupBaseMs).Lines
        have htaken : (R.opened.map (·.2)).Nodup →
            Lines
              { R with queue := rest, carried := R.carried ++ [.openSession request name role
                setupBaseMs] } :=
          fun hnodup => (hlines hnodup).taken fun acc => by cases acc <;> rfl
        have hmoved : (R.opened.map (·.2)).Nodup →
            Lines
              (pushMoved io
                { R with queue := rest, carried := R.carried ++ [.openSession request name role
                  setupBaseMs] }) :=
          fun hnodup => (htaken hnodup).same ⟨rfl, rfl, rfl, rfl, rfl⟩
        unfold ControlRunner.openSession
        dsimp only
        split_ifs
        · intro hnodup
          replace hnodup : ((R.opened ++ [(role, request.peerId)]).map (·.2)).Nodup := hnodup
          rw [List.map_append, List.map_singleton, List.nodup_append] at hnodup
          have hrole : role ≠ .none := by
            rw [hqueue] at hroles
            exact hroles (role, request.peerId) List.mem_cons_self
          exact (hmoved hnodup.1).made setupBaseMs hrole fun hmem =>
            hnodup.2.2 _ hmem _ (List.mem_singleton_self _) rfl
        · exact fun hnodup => (hmoved hnodup).same ⟨rfl, rfl, rfl, rfl, rfl⟩
      | recordAttempt role peer result =>
        intro hnodup
        obtain ⟨hrole, hresult⟩ : Lobby.RecordsFailure (.recordAttempt role peer result) :=
          hfailures _ (hqueue ▸ List.mem_cons_self)
        exact ((hlines hnodup).attempt peer hrole hresult).same ⟨rfl, rfl, rfl, rfl, rfl⟩
      | _ => exact absurd rfl hother
  case h_2 hqueue =>
    split
    case h_1 queued rest hevents =>
      intro hnodup
      have hrecorded : ∀ M : ControlRunner, (M.record queued).opened = M.opened := by
        intro M
        obtain ⟨tracks, lastAttempt, records, hrecord⟩ := record_same M queued
        rw [hrecord]
      have hold : (R.opened.map (·.2)).Nodup := by
        have hsame :
          (enter io (ControlRunner.record { R with events := rest } queued)
            (.session queued.event)).opened = R.opened :=
          hrecorded _
        rw [hsame] at hnodup
        exact hnodup
      have hlines' : Lines { R with events := rest } := (hlines hold).same ⟨rfl, rfl, rfl, rfl, rfl⟩
      exact (hlines'.record queued).same ⟨rfl, rfl, rfl, rfl, rfl⟩
    case h_2 => exact fun hnodup => (hlines hnodup).same ⟨rfl, rfl, rfl, rfl, rfl⟩

/-! ## Runs -/

theorem Ledger.failures (hledger : R.Ledger h) : ∀ a ∈ R.queue, Lobby.RecordsFailure a :=
  fun a ha => Lobby.run_records hledger.run a (hledger.carries ▸ List.mem_append_right _ ha)

theorem Ledger.roles (hledger : R.Ledger h) : ∀ x ∈ opensOf R.queue, x.1 ≠ .none := by
  intro x hx
  obtain ⟨hrole, hpaired⟩ := hledger.waits.paired x hx
  rw [hrole]
  exact (hpaired.stage (Lobby.run_invariant hledger.run)).2

theorem reachable_ledger (hreach : Reachable deps R) :
    (∃ h, R.Ledger h) ∧ ((R.opened.map (·.2)).Nodup → R.Lines) := by
  induction hreach with
  | made name timers =>
    refine ⟨⟨[], .start name, rfl, Lobby.opened_nil _, fun _ => rfl⟩, fun _ => ?_⟩
    exact ⟨⟨rfl, fun as e bs hsplit => absurd hsplit.symm (by simp [made]), List.nodup_nil⟩,
      ⟨nofun, nofun⟩, List.nodup_nil, nofun, fun _ => rfl, nofun, nofun⟩
  | @step R R' hreach hstep ih =>
    obtain ⟨⟨h, hledger⟩, hlines⟩ := ih
    cases hstep with
    | input io i hrunning hpossible =>
      have htells := input_tells deps io R i
      refine ⟨hledger.told ((reachable_synced hreach).ended hrunning) htells, fun hnodup => ?_⟩
      rw [htells.lines.opened] at hnodup
      exact (hlines hnodup).same htells.lines
    | turn io hrunning =>
      exact ⟨turn_ledger hledger, turn_lines hledger.failures hledger.roles hlines⟩

def underWay (R : ControlRunner) (acc : Account) : ℕ :=
  if R.lobby.role = acc.role ∧ R.lobby.stage ≠ .lobby ∧ R.lobby.stage ≠ .settled then 1 else 0

/-- The record lines, once every action of the lobby was carried out. -/
structure Accounted (R : ControlRunner) : Prop extends Log R.records R.lastAttempt where
  /-- each attempt of a player has one line, or its session has none yet, or it is under way -/
  player : R.carried.countP Account.player.begins =
    R.records.countP (lineOf .player) + R.tracks.countP (unwritten .player) + R.underWay .player
  /-- an attempt of a host has its line where it ended before the room was set up -/
  host : R.carried.countP Account.host.begins =
    R.records.countP (lineOf .host) + R.carried.countP Account.host.settles + R.underWay .host
  /-- each pair of a host has one line, whether its session was made or not -/
  pair : ∀ peerId, (opensOf R.carried).count (.host, peerId) =
    R.records.countP (lineOf (.pair peerId)) + R.tracks.countP (unwritten (.pair peerId))
  roles : ∀ l ∈ R.records, l.role = .player ∨ l.role = .host
  /-- a session that was connected has its end, or no end yet -/
  settled : ∀ l ∈ R.records, l.kind = .establish → l.result = "OK" →
    (∃ e ∈ R.records, e.kind = .ends ∧ e.attempt = l.attempt) ∨
      ∃ x ∈ R.tracks, x.2.connected = true ∧ x.2.attempt = l.attempt

theorem owed_underWay (hinv : Lobby.Invariant R.lobby) (acc : Account) :
    acc.owed R.lobby = R.underWay acc := by
  unfold Account.owed underWay
  rw [Nat.cast_ite, Nat.cast_one, Nat.cast_zero]
  exact if_congr ((and_congr_left fun _ => hinv.due).trans And.comm) rfl rfl

theorem opens_settles (as : List LobbyAction) :
    (opensOf as).countP Account.player.counts = as.countP Account.player.settles := by
  induction as with
  | nil => rfl
  | cons a as ih =>
    rw [show a :: as = [a] ++ as from rfl, Lobby.opensOf_append, List.countP_append,
      List.countP_append, ih]
    congr 1
    cases a <;> rfl

theorem counts_host (xs : Lobby.Openings) : xs.countP Account.host.counts = 0 :=
  List.countP_eq_zero.mpr fun _ _ => nofun

theorem counts_pair (peerId : U32) (xs : Lobby.Openings) :
    xs.countP (Account.pair peerId).counts = xs.count (.host, peerId) := by
  unfold List.count
  refine List.countP_congr fun x _ => ?_
  simp [Account.counts]

/-- Whatever ends how, and in whatever order: every attempt and every pair is written down once, and
every session that was connected has one end after its beginning. -/
theorem records_account (hreach : Reachable deps R) (hdistinct : (R.opened.map (·.2)).Nodup)
    (hqueue : R.queue = []) :
    R.Accounted := by
  obtain ⟨⟨h, hledger⟩, hlines⟩ := reachable_ledger hreach
  have hlines := hlines hdistinct
  have htally : ∀ acc : Account,
    ((R.carried.countP acc.records : ℤ) + R.carried.countP acc.settles -
      R.carried.countP acc.begins) +
      R.underWay acc = (notOpened h).countP acc.counts := by
    intro acc
    have hrun := Lobby.run_tally hledger.run acc
    rw [hledger.carries, hqueue, List.append_nil, acc.tally_eq,
      owed_underWay (Lobby.run_invariant hledger.run)] at hrun
    exact hrun
  refine ⟨hlines.toLog, ?_, ?_, fun peerId => ?_, fun l hl => ?_, hlines.settled⟩
  · have haccount := hlines.account .player
    have hopens := hledger.opens .player
    have hplayer := htally .player
    rw [opens_settles] at hopens
    omega
  · have haccount := hlines.account .host
    have hhost := htally .host
    have hunwritten : R.tracks.countP (unwritten .host) = 0 := by
      refine List.countP_eq_zero.mpr fun x _ => ?_
      unfold unwritten
      rw [show Account.host.counts (x.2.role, x.1) = false from rfl, Bool.and_false]
      exact Bool.false_ne_true
    rw [hunwritten, counts_host] at haccount
    rw [counts_host] at hhost
    omega
  · have haccount := hlines.account (.pair peerId)
    have hopens := hledger.opens (.pair peerId)
    have hpair := htally (.pair peerId)
    have hbegins : R.carried.countP (Account.pair peerId).begins = 0 :=
      List.countP_eq_zero.mpr fun _ _ => nofun
    have hsettles : R.carried.countP (Account.pair peerId).settles = 0 :=
      List.countP_eq_zero.mpr fun _ _ => nofun
    have hnone : R.underWay (.pair peerId) = 0 := by
      refine if_neg fun hunder => ?_
      exact (Lobby.run_invariant hledger.run).role hunder.2.1 hunder.1
    rw [hbegins, hsettles, hnone] at hpair
    rw [← counts_pair]
    omega
  · cases hrole : l.role with
    | none => exact absurd hrole (hlines.roles.1 l hl)
    | host => exact .inr rfl
    | player => exact .inl rfl

/-! ## A meeting -/

/-- The call can come now. Timers of the rest of the program stay as they are. -/
def canCome (R : ControlRunner) : Input → Bool
  | .response response =>
    !R.running && R.inFlight.any fun q => q.op = response.op ∧ q.selfPeerId = response.selfPeerId
  | .expired t => !R.running && decide (t ∈ R.timers.timers) && !t.repeating
  | .others _ => false
  | _ => !R.running

/-- Each call is made where the one before it has been dealt with. -/
def fed (R : ControlRunner) : List (RunnerIo × (ControlRunner → Input)) → Option ControlRunner
  | [] => some R
  | (io, i) :: rest =>
    if R.canCome (i R) then
      fed (drained sampleDeps io 60 (R.input sampleDeps io (i R))) rest else none

theorem fed_reachable {calls : List (RunnerIo × (ControlRunner → Input))}
    (hreach : Reachable sampleDeps R) (hfed : R.fed calls = some R') :
    Reachable sampleDeps R' := by
  induction calls generalizing R with
  | nil =>
    obtain rfl := Option.some.inj hfed
    exact hreach
  | cons call rest ih =>
    obtain ⟨io, i⟩ := call
    unfold fed at hfed
    split_ifs at hfed with hcan
    have hstep : R.running = false ∧ R.Possible (i R) := by
      cases hi : i R with
      | response response => simpa [canCome, Possible, hi] using hcan
      | expired t => simpa [canCome, Possible, hi, and_assoc] using hcan
      | others timers => simp [canCome, hi] at hcan
      | _ => simpa [canCome, Possible, hi] using hcan
    exact ih (drained_reachable 60 (hreach.step (.input io _ hstep.1 hstep.2))) hfed

def sharingIo : RunnerIo :=
  { sampleIo with lobby := { Lobby.hostIo with collect := fun mapped => mapped.map fun e => ⟨e,
    .reflexive⟩ } }

def okBytes (body : String) : Bytes :=
  Lobby.ascii "HTTP/1.1 200 OK\r\nContent-Length: " ++ Lobby.decimal body.length ++
    Lobby.ascii "\r\n\r\n" ++ Lobby.ascii body

def answered (op : Op) (self : U32) (body : String) : Input :=
  .response ⟨op, { status := .complete, response := okBytes body }, self⟩

def polled (R : ControlRunner) : Input :=
  match R.timers.timers.find? (·.name = nameOf .poll) with
  | some t => .expired t
  | none => .flush

def joinedBody : String :=
  "\x7b\"ok\":true,\"room_id\":\"AAAAAA\",\"peer_id\":2," ++
    "\"peer_token\":\"bbbbbbbbbbbbbbbbbbbbbbbbbbbbbbbb\"," ++
    "\"virtual_ip\":\"10.10.0.2\",\"expires_in_s\":3600\x7d"

def hostBody : String :=
  "\x7b\"ok\":true,\"ready\":true," ++
    "\"peers\":[\x7b\"peer_id\":1,\"virtual_ip\":\"10.10.0.1\",\"name\":\"a\"," ++
    "\"ready\":true,\"punch_delay_ms\":0,\"elapsed_since_ready_ms\":0," ++
    "\"candidates\":[\x7b\"ip\":\"9.9.9.9\",\"port\":5000,\"kind\":\"reflexive\"\x7d]\x7d]\x7d"

/-- A player joins, meets the host, and the host closes the session. -/
def meeting : List (RunnerIo × (ControlRunner → Input)) :=
  [(sharingIo, fun _ => .command { kind := .join, argument := Lobby.ascii "AAAAAA" }),
    (sharingIo, fun _ => answered .joinRoom 0 joinedBody),
    (sharingIo, fun _ => .datagram (StunClient.sampleResponse 0)),
    (sharingIo, fun _ => .datagram (StunClient.sampleResponse 1)),
    (sharingIo,
      fun _ => answered .registerCandidate 2 "\x7b\"ok\":true,\"accepted\":1,\"rejected\":0\x7d"),
    (sharingIo, polled),
    (sharingIo, fun _ => answered .getPeers 2 hostBody),
    ({ sharingIo with moved := [{ peerId := 1, after := .connected },
      { peerId := 1, before := .connected, after := .closed }] },
      fun _ => .tunnel),
    (sharingIo, fun _ => .flush)]

theorem meeting_accounted : ∃ R, (made [0x61] empty).fed meeting = some R ∧
    R.records.map (·.kind) = [.establish, .ends] ∧
    R.tracks = [] ∧ R.Accounted := by
  have hmet : ((made [0x61] empty).fed meeting).any
    (fun R => R.records.map (·.kind) = [.establish, .ends] ∧ R.tracks = [] ∧
      (R.opened.map (·.2)).Nodup ∧ R.queue = []) = true := by
    decide +kernel
  cases hfed : (made [0x61] empty).fed meeting with
  | none =>
    rw [hfed] at hmet
    cases hmet
  | some R =>
    rw [hfed] at hmet
    obtain ⟨hkinds, htracks, hdistinct, hqueue⟩ := of_decide_eq_true hmet
    exact ⟨R, rfl, hkinds, htracks,
      records_account (fed_reachable (.made _ _ idle_empty nofun) hfed) hdistinct hqueue⟩

end Sangtachi.ControlRunner
