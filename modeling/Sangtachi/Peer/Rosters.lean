import Sangtachi.Peer.Emission

/-! # The rosters a session takes

In whatever order they come, with whatever losses and repetitions: the generations of the rosters
that are taken do not fall, and those above all earlier ones are written down. -/
namespace Sangtachi.Peer

open Sangtachi.BigEndian Sangtachi.Packet Sangtachi.Replay Sangtachi.InnerIpv4

variable {C : SessionConfig} {E : SessionIo} {s s' : Session} {t T : Millis} {op : Op} {r : Roster}
  {h : List Entry}

theorem sendPacket_told (type : PacketType) (payload : List U8) (dest : Endpoint) :
    Told none s (sendPacket C E s type payload dest).2 := by
  obtain ⟨counters, calls, hs, hcalls⟩ := sendPacket_spec (C := C) (E := E) s type payload dest
  rw [hs]
  refine ⟨rfl, ?_⟩
  rw [rostersOf_append]
  rcases hcalls with ⟨rfl, -, -⟩ | ⟨bytes, -, rfl, -⟩
  · exact List.append_nil _
  · exact List.append_nil _

theorem sendEach_told (type : PacketType) (payload : List U8) (dests : List Endpoint) :
    Told none s (sendEach C E s type payload dests) := by
  induction dests generalizing s with
  | nil => exact ⟨rfl, rfl⟩
  | cons e rest ih => exact (sendPacket_told type payload e).trans ih

theorem sendUntilFailure_told (inner : List U8) (dests : List Endpoint) :
    Told none s (sendUntilFailure C E s inner dests).2 := by
  induction dests generalizing s with
  | nil => exact ⟨rfl, rfl⟩
  | cons e rest ih =>
    have hsend : Told none s (sendPacket C E s .data inner e).2 := sendPacket_told .data inner e
    unfold sendUntilFailure
    generalize sendPacket C E s .data inner e = result at hsend ⊢
    obtain ⟨ok, u⟩ := result
    cases ok with
    | false => exact hsend
    | true => exact hsend.trans ih

theorem step_told (s : Session) (op : Op) (T : Millis) :
    Told (taken C E s op T) { s with out := [] } (step C E s op T) := by
  cases op with
  | startPunch => exact (step_emits (show Op.fits .startPunch from trivial)).told
  | poll => exact (step_emits (show Op.fits .poll from trivial)).told
  | receive p => exact (step_emits (show Op.fits (.receive p) from trivial)).told
  | closeByUser => exact (step_emits (show Op.fits .closeByUser from trivial)).told
  | sendData inner =>
    have hsend : Told none { s with out := [] } (sendData C E { s with out := [] } inner).2 := by
      unfold sendData
      cases s.peerEndpoint with
      | none => exact sendUntilFailure_told inner _
      | some e => exact sendPacket_told .data inner e
    exact hsend
  | sendRoster payload =>
    have hsend :
      Told none { s with out := [] } (sendToPeer C E { s with out := [] } .roster payload) := by
      unfold sendToPeer
      cases s.peerEndpoint with
      | none => exact sendEach_told .roster payload _
      | some e => exact sendPacket_told .roster payload e
    exact hsend

theorem decodeRoster_newer {payload : List U8} {context : RosterContext}
    (hd : decodeRoster payload context = .ok r) (g : U32)
    (hlast : context.lastGeneration = some g) : g ≤ r.generation := by
  unfold decodeRoster at hd
  dsimp only at hd
  by_cases hhost : (!context.senderIsHost) = true
  · rw [if_pos hhost] at hd
    cases hd
  rw [if_neg hhost] at hd
  by_cases hshort : payload.length < rosterHeadSize
  · rw [if_pos hshort] at hd
    cases hd
  rw [if_neg hshort] at hd
  by_cases hcount : (read8 payload 4).toNat < 1 ∨ maxPeers < (read8 payload 4).toNat
  · rw [if_pos hcount] at hd
    cases hd
  rw [if_neg hcount] at hd
  cases hread : readMembers (read8 payload 4).toNat (payload.drop rosterHeadSize) with
  | none =>
    rw [hread] at hd
    cases hd
  | some result =>
    rw [hread] at hd
    dsimp only at hd
    split_ifs at hd with hrest hstale hflags hnames
    obtain rfl := Except.ok.inj hd
    rw [hlast] at hstale
    simpa using hstale

theorem taken_newer (ht : taken C E s op T = some r) (g : U32) (hlast : s.lastGeneration = some g) :
    g ≤ r.generation := by
  cases op with
  | receive p =>
    unfold taken at ht
    dsimp only at ht
    by_cases hpassed : (receive C E { s with out := [] } p T).1 = none ∧ p.type = some .roster
    · rw [if_pos hpassed] at ht
      cases hdecode : decodeRoster p.payload ⟨C.peerIsHost, s.lastGeneration⟩ with
      | error e =>
        rw [hdecode] at ht
        cases ht
      | ok r' =>
        rw [hdecode] at ht
        obtain rfl := Option.some.inj ht
        exact decodeRoster_newer hdecode g hlast
    · rw [if_neg hpassed] at ht
      cases ht
  | startPunch => cases ht
  | poll => cases ht
  | sendData inner => cases ht
  | sendRoster payload => cases ht
  | closeByUser => cases ht

def takenIn (C : SessionConfig) (E : SessionIo) (h : List Entry) : List Roster :=
  h.filterMap fun e => taken C E e.before e.op e.now

theorem takenIn_append (h : List Entry) (e : Entry) :
    takenIn C E (h ++ [e]) = takenIn C E h ++ (taken C E e.before e.op e.now).toList := by
  unfold takenIn
  rw [List.filterMap_append, List.filterMap_cons]
  cases taken C E e.before e.op e.now with
  | none => rfl
  | some r => rfl

/-- The last generation is the greatest that was taken. -/
structure Newest (C : SessionConfig) (E : SessionIo) (h : List Entry) (s : Session) : Prop where
  ascending : (takenIn C E h).Pairwise fun r r' => r.generation ≤ r'.generation
  none : s.lastGeneration = none → takenIn C E h = []
  bound : ∀ g, s.lastGeneration = some g → (∀ r ∈ takenIn C E h, r.generation ≤ g) ∧
    ∃ r ∈ takenIn C E h, r.generation = g

theorem execution_newest (hx : Execution C E h t s) : Newest C E h s := by
  induction hx with
  | start t => exact ⟨List.Pairwise.nil, fun _ => rfl, fun g hg => by cases hg⟩
  | @call h t s op now _ _ ih =>
    have htold : Told (taken C E s op now) { s with out := [] } (step C E s op now) :=
      step_told s op now
    have happend := takenIn_append (C := C) (E := E) h ⟨now, op, s, step C E s op now⟩
    dsimp only at happend
    cases htaken : taken C E s op now with
    | none =>
      rw [htaken] at htold happend
      have hgeneration : (step C E s op now).lastGeneration = s.lastGeneration := htold.1
      rw [Option.toList_none, List.append_nil] at happend
      refine ⟨happend ▸ ih.ascending, ?_, ?_⟩
      · rw [happend, hgeneration]
        exact ih.none
      · rw [happend, hgeneration]
        exact ih.bound
    | some r =>
      rw [htaken] at htold happend
      have hgeneration : (step C E s op now).lastGeneration = some r.generation := htold.1
      rw [Option.toList_some] at happend
      have hbelow : ∀ q ∈ takenIn C E h, q.generation ≤ r.generation := by
        intro q hq
        cases hlast : s.lastGeneration with
        | none =>
          rw [ih.none hlast] at hq
          cases hq
        | some g => exact BitVec.le_trans ((ih.bound g hlast).1 q hq) (taken_newer htaken g hlast)
      refine ⟨?_, ?_, ?_⟩
      · rw [happend, List.pairwise_append]
        refine ⟨ih.ascending, List.pairwise_singleton _ _, ?_⟩
        intro q hq r' hr'
        obtain rfl := List.mem_singleton.mp hr'
        exact hbelow q hq
      · rw [hgeneration]
        intro hnone
        cases hnone
      · rw [hgeneration, happend]
        intro g hg
        obtain rfl := Option.some.inj hg
        refine ⟨?_, r, List.mem_append_right _ (List.mem_singleton_self r), rfl⟩
        intro q hq
        rcases List.mem_append.mp hq with hq | hq
        · exact hbelow q hq
        · rw [List.mem_singleton.mp hq]
          exact BitVec.le_refl _

/-- A call writes a roster down when it takes one whose generation is above all that were taken. -/
theorem Newest.logged (hn : Newest C E h s) (op : Op) (T : Millis) :
    rostersOf (step C E s op T).out =
      (taken C E s op T).toList.filter fun r =>
      (takenIn C E h).all (·.generation < r.generation) := by
  have htold : Told (taken C E s op T) { s with out := [] } (step C E s op T) := step_told s op T
  cases htaken : taken C E s op T with
  | none =>
    rw [htaken] at htold
    exact htold.2
  | some r =>
    rw [htaken] at htold
    have hlogged : rostersOf (step C E s op T).out = if s.lastGeneration = some r.generation then
      [] else [r] := htold.2
    rw [hlogged, Option.toList_some, List.filter_singleton]
    by_cases hsame : s.lastGeneration = some r.generation
    · obtain ⟨q, hq, hgeneration⟩ := (hn.bound r.generation hsame).2
      have hnot : (takenIn C E h).all (·.generation < r.generation) = false := by
        rw [List.all_eq_false]
        exact ⟨q, hq, by simp [hgeneration]⟩
      rw [if_pos hsame, hnot]
      rfl
    · have hall : (takenIn C E h).all (·.generation < r.generation) = true := by
        rw [List.all_eq_true]
        intro q hq
        cases hlast : s.lastGeneration with
        | none =>
          rw [hn.none hlast] at hq
          cases hq
        | some g =>
          have hle := (hn.bound g hlast).1 q hq
          have hge := taken_newer htaken g hlast
          rw [hlast, Option.some.injEq] at hsame
          have hne : g.toNat ≠ r.generation.toNat := fun heq => hsame (BitVec.eq_of_toNat_eq heq)
          rw [decide_eq_true_eq, BitVec.lt_def]
          rw [BitVec.le_def] at hle hge
          omega
      rw [if_neg hsame, hall]
      rfl

theorem execution_call {e : Entry} {h₂ : List Entry} (hx : Execution C E (h ++ e :: h₂) t s) :
    ∃ t', Execution C E h t' e.before ∧ e.after = step C E e.before e.op e.now := by
  generalize hall : h ++ e :: h₂ = all at hx
  induction hx generalizing h₂ with
  | start t => simp at hall
  | @call h' t' s' op now hbefore ht ih =>
    rcases List.eq_nil_or_concat h₂ with rfl | ⟨h₃, last, rfl⟩
    · obtain ⟨rfl, hlast⟩ := List.append_inj' hall rfl
      obtain rfl := (List.cons.inj hlast).1
      exact ⟨t', hbefore, rfl⟩
    · rw [List.concat_eq_append, ← List.cons_append, ← List.append_assoc] at hall
      obtain ⟨hfront, -⟩ := List.append_inj' hall rfl
      exact ih hfront

end Sangtachi.Peer
