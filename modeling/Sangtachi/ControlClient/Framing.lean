import Sangtachi.ControlClient.Exchange

/-! # The boundary of a response does not depend on how it comes in

What is decided on the first bytes of a stream stays decided however it goes on, so the receive loop
ends as the whole stream says, whatever pieces it is read in. -/
namespace Sangtachi.Http

open Sangtachi.Json (Bytes Value maxBodyBytes)
open Sangtachi.Lines

variable {b c : Bytes} {last bodySize : ℕ} {error : ResponseError}

/-! ## What is decided stays decided -/

theorem head_append (h : find headEnd (b.take maxHeaderBytes) = some last) (c : Bytes) :
    find headEnd ((b ++ c).take maxHeaderBytes) = some last := by
  rw [List.take_append]
  exact find_append h _

theorem head_length (h : find headEnd (b.take maxHeaderBytes) = some last) :
    last + headEnd.length ≤ b.length ∧ last + headEnd.length ≤ maxHeaderBytes := by
  have hlength := find_length_le h
  rw [List.length_take] at hlength
  omega

theorem head_take (h : find headEnd (b.take maxHeaderBytes) = some last) (c : Bytes) :
    (b ++ c).take last = b.take last := by
  have hlength := (head_length h).1
  rw [List.take_append_of_le_length (by omega)]

theorem frame_open (h : find headEnd (b.take maxHeaderBytes) = none) :
    frameResponse b = if maxHeaderBytes ≤ b.length then invalid .headerTooLarge else {} := by
  unfold frameResponse
  rw [h]

theorem frame_bad (h : find headEnd (b.take maxHeaderBytes) = some last)
    (hjudge : judgeHead (b.take last) = .error error) : frameResponse b = invalid error := by
  unfold frameResponse
  rw [h]
  dsimp only
  rw [hjudge]

theorem frame_good (h : find headEnd (b.take maxHeaderBytes) = some last)
    (hjudge : judgeHead (b.take last) = .ok bodySize) :
    frameResponse b =
      if last + headEnd.length + bodySize ≤ b.length then
        { state := .complete, headSize := last + headEnd.length, bodySize := bodySize }
      else
        { state := .needMore, headSize := last + headEnd.length, bodySize := bodySize
          needed := last + headEnd.length + bodySize - b.length } := by
  unfold frameResponse
  rw [h]
  dsimp only
  rw [hjudge]

/-- The ways a frame can come out. -/
inductive Framed (b : Bytes) : Frame → Prop where
  | waiting : find headEnd (b.take maxHeaderBytes) = none → b.length < maxHeaderBytes → Framed b {}
  | tooLarge : find headEnd (b.take maxHeaderBytes) = none → maxHeaderBytes ≤ b.length →
      Framed b (invalid .headerTooLarge)
  | bad (last : ℕ) (error : ResponseError) : find headEnd (b.take maxHeaderBytes) = some last →
      judgeHead (b.take last) = .error error → Framed b (invalid error)
  | more (last bodySize : ℕ) : find headEnd (b.take maxHeaderBytes) = some last →
      judgeHead (b.take last) = .ok bodySize → b.length < last + headEnd.length + bodySize →
      Framed b { state := .needMore, headSize := last + headEnd.length, bodySize := bodySize
                 needed := last + headEnd.length + bodySize - b.length }
  | complete (last bodySize : ℕ) : find headEnd (b.take maxHeaderBytes) = some last →
      judgeHead (b.take last) = .ok bodySize → last + headEnd.length + bodySize ≤ b.length →
      Framed b { state := .complete, headSize := last + headEnd.length, bodySize := bodySize }

theorem frameResponse_framed (b : Bytes) : Framed b (frameResponse b) := by
  cases hhead : find headEnd (b.take maxHeaderBytes) with
  | none =>
    rw [frame_open hhead]
    by_cases hlong : maxHeaderBytes ≤ b.length
    · rw [if_pos hlong]
      exact .tooLarge hhead hlong
    · rw [if_neg hlong]
      exact .waiting hhead (by omega)
  | some last =>
    cases hjudge : judgeHead (b.take last) with
    | error error =>
      rw [frame_bad hhead hjudge]
      exact .bad last error hhead hjudge
    | ok bodySize =>
      rw [frame_good hhead hjudge]
      by_cases hlong : last + headEnd.length + bodySize ≤ b.length
      · rw [if_pos hlong]
        exact .complete last bodySize hhead hjudge hlong
      · rw [if_neg hlong]
        exact .more last bodySize hhead hjudge (by omega)

theorem frameResponse_append (h : (frameResponse b).state ≠ .needMore) (c : Bytes) :
    frameResponse (b ++ c) = frameResponse b := by
  have hframed := frameResponse_framed b
  generalize frameResponse b = frame at h hframed
  cases hframed with
  | waiting => exact absurd rfl h
  | tooLarge hhead hlong =>
    have htake : (b ++ c).take maxHeaderBytes = b.take maxHeaderBytes :=
      List.take_append_of_le_length hlong
    rw [frame_open (htake ▸ hhead), List.length_append, if_pos (by omega)]
  | bad last error hhead hjudge =>
    exact frame_bad (head_append hhead c) (by rw [head_take hhead, hjudge])
  | more => exact absurd rfl h
  | complete last bodySize hhead hjudge hlong =>
    rw [frame_good (head_append hhead c) (by rw [head_take hhead, hjudge]), List.length_append,
      if_pos (by omega)]

/-- With fewer bytes than needed the rest is still needed, and with as many the response is
complete. -/
theorem frameResponse_needed (h : (frameResponse b).state = .needMore)
    (hneeded : (frameResponse b).needed ≠ 0) (c : Bytes) :
    frameResponse (b ++ c) =
      if c.length < (frameResponse b).needed then
        { frameResponse b with needed := (frameResponse b).needed - c.length }
      else { frameResponse b with state := .complete, needed := 0 } := by
  have hframed := frameResponse_framed b
  generalize frameResponse b = frame at h hneeded hframed
  cases hframed with
  | waiting => exact absurd rfl hneeded
  | tooLarge => cases h
  | bad => cases h
  | complete => cases h
  | more last bodySize hhead hjudge hshort =>
    rw [frame_good (head_append hhead c) (by rw [head_take hhead, hjudge]), List.length_append]
    dsimp only
    by_cases hfew : c.length < last + headEnd.length + bodySize - b.length
    · rw [if_pos hfew, if_neg (by omega)]
      congr 1
      omega
    · rw [if_neg hfew, if_pos (by omega)]

theorem frameResponse_sizes (h : (frameResponse b).headSize ≠ 0) (c : Bytes) :
    (frameResponse (b ++ c)).headSize = (frameResponse b).headSize ∧
      (frameResponse (b ++ c)).bodySize = (frameResponse b).bodySize := by
  by_cases hstate : (frameResponse b).state = .needMore
  · have hneeded : (frameResponse b).needed ≠ 0 := by
      have hframed := frameResponse_framed b
      generalize frameResponse b = frame at h hstate hframed
      cases hframed with
      | waiting => exact absurd rfl h
      | tooLarge => cases hstate
      | bad => cases hstate
      | complete => cases hstate
      | more last bodySize hhead hjudge hshort =>
        dsimp only
        omega
    rw [frameResponse_needed hstate hneeded c]
    by_cases hfew : c.length < (frameResponse b).needed
    · rw [if_pos hfew]
      exact ⟨rfl, rfl⟩
    · rw [if_neg hfew]
      exact ⟨rfl, rfl⟩
  · rw [frameResponse_append hstate]
    exact ⟨rfl, rfl⟩

/-! ## Sizes within the limits -/

theorem readDigits_le (v : Bytes) (out : LengthValue)
    (hout : out.overLimit = false → out.value ≤ maxBodyBytes) :
    (readDigits out v).overLimit = false → (readDigits out v).value ≤ maxBodyBytes := by
  induction v generalizing out with
  | nil => exact hout
  | cons d v ih =>
    unfold readDigits
    by_cases hdigit : Json.isDigit d = true
    · rw [if_neg (by simp [hdigit])]
      by_cases hover : out.overLimit = true
      · rw [if_pos hover]
        exact ih out hout
      · rw [if_neg hover]
        apply ih
        intro hunder
        exact Nat.not_lt.mp (of_decide_eq_false hunder)
    · rw [if_pos (by simp [hdigit])]
      exact hout

theorem parseLength_le (raw : Bytes) (h : (parseLength raw).overLimit = false) :
    (parseLength raw).value ≤ maxBodyBytes := by
  unfold parseLength at h ⊢
  dsimp only at h ⊢
  split_ifs at h ⊢
  · exact Nat.zero_le _
  · exact readDigits_le _ {} (fun _ => Nat.zero_le _) h
  · exact Nat.zero_le _
  · exact readDigits_le _ {} (fun _ => Nat.zero_le _) h

theorem judgeHead_le {lines : Bytes} (h : judgeHead lines = .ok bodySize) :
    bodySize ≤ maxBodyBytes := by
  unfold judgeHead at h
  dsimp only at h
  split_ifs at h
  cases hheaders : readHeaders {} lines.length
      (lines.drop ((find crlf lines).getD lines.length + crlf.length)) with
  | none => rw [hheaders] at h; cases h
  | some headers =>
    rw [hheaders] at h
    dsimp only at h
    split_ifs at h with _ _ _ _ hover
    cases h
    exact parseLength_le _ (by simpa using hover)

theorem frameResponse_total_le (b : Bytes) :
    (frameResponse b).headSize + (frameResponse b).bodySize ≤ maxHeaderBytes + maxBodyBytes := by
  have hframed := frameResponse_framed b
  generalize frameResponse b = frame at hframed
  cases hframed with
  | waiting => exact Nat.zero_le _
  | tooLarge => exact Nat.zero_le _
  | bad => exact Nat.zero_le _
  | more last bodySize hhead hjudge hshort =>
    exact Nat.add_le_add (head_length hhead).2 (judgeHead_le hjudge)
  | complete last bodySize hhead hjudge hlong =>
    exact Nat.add_le_add (head_length hhead).2 (judgeHead_le hjudge)

/-- What the loop of the caller relies on: more is asked for up to the limit of the head, or up to
the end of the response. -/
theorem needMore_cases (h : (frameResponse b).state = .needMore) :
    ((frameResponse b).needed = 0 ∧ (frameResponse b).headSize = 0 ∧ b.length < maxHeaderBytes) ∨
      ((frameResponse b).needed ≠ 0 ∧ (frameResponse b).headSize ≠ 0 ∧
        b.length + (frameResponse b).needed =
          (frameResponse b).headSize + (frameResponse b).bodySize) := by
  have hframed := frameResponse_framed b
  generalize frameResponse b = frame at h hframed
  cases hframed with
  | waiting hhead hshort => exact .inl ⟨rfl, rfl, hshort⟩
  | tooLarge => cases h
  | bad => cases h
  | complete => cases h
  | more last bodySize hhead hjudge hshort =>
    have hpositive : 0 < headEnd.length := by decide
    refine .inr ⟨?_, ?_, ?_⟩
    · dsimp only
      omega
    · dsimp only
      omega
    · dsimp only
      omega

theorem complete_length (h : (frameResponse b).state = .complete) :
    (frameResponse b).headSize + (frameResponse b).bodySize ≤ b.length := by
  have hframed := frameResponse_framed b
  generalize frameResponse b = frame at h hframed
  cases hframed with
  | waiting => cases h
  | tooLarge => cases h
  | bad => cases h
  | more => cases h
  | complete last bodySize hhead hjudge hlong => exact hlong

end Sangtachi.Http

namespace Sangtachi.Exchange

open Sangtachi.Json (Bytes maxBodyBytes)
open Sangtachi.Http

variable {ioMs start wanted : ℕ} {t : Turn} {received rest received' rest' stream : Bytes}
  {result : ExchangeResult}

/-! ## The receive loop -/

/-- How the loop ends on a stream behind which the peer closes. -/
def outcome (stream : Bytes) : ExchangeResult :=
  let frame := frameResponse stream
  match frame.state with
  | .complete => { status := .complete, response := stream.take (frame.headSize + frame.bodySize) }
  | .invalid => badResponse frame.error
  | .needMore => fail .closedEarly

theorem want_eq (h : (frameResponse received).state = .needMore) :
    want (frameResponse received) received ≠ 0 ∧
      received.length + want (frameResponse received) received =
        if (frameResponse received).needed = 0 then maxHeaderBytes
        else (frameResponse received).headSize + (frameResponse received).bodySize := by
  unfold want
  rcases needMore_cases h with ⟨hneeded, -, hshort⟩ | ⟨hneeded, -, htotal⟩
  · rw [if_neg (not_not.mpr hneeded), if_pos hshort, if_pos hneeded]
    omega
  · rw [if_pos hneeded, if_neg hneeded]
    exact ⟨hneeded, htotal⟩

theorem judge_more (h : judge received = .inr wanted) :
    (frameResponse received).state = .needMore ∧
    wanted = want (frameResponse received) received := by
  unfold judge at h
  dsimp only at h
  cases hstate : (frameResponse received).state with
  | complete => rw [hstate] at h; cases h
  | invalid => rw [hstate] at h; cases h
  | needMore =>
    rw [hstate] at h
    dsimp only at h
    rw [if_neg (want_eq hstate).1] at h
    cases h
    exact ⟨rfl, rfl⟩

theorem judge_outcome (h : judge received = .inl result) (rest : Bytes) :
    result = outcome (received ++ rest) := by
  unfold judge at h
  unfold outcome
  dsimp only at h ⊢
  cases hstate : (frameResponse received).state with
  | complete =>
    rw [hstate] at h
    cases h
    have hsame := frameResponse_append (b := received) (by rw [hstate]; decide) rest
    rw [hsame, hstate]
    dsimp only
    rw [List.take_append_of_le_length (complete_length hstate)]
  | invalid =>
    rw [hstate] at h
    cases h
    have hsame := frameResponse_append (b := received) (by rw [hstate]; decide) rest
    rw [hsame, hstate]
  | needMore =>
    rw [hstate] at h
    dsimp only at h
    rw [if_neg (want_eq hstate).1] at h
    cases h

/-- A turn without a timeout, an abort or a failure. -/
def Turn.Undisturbed (ioMs start : ℕ) (t : Turn) : Prop :=
  t.now - start < ioMs ∧ t.ready.status = .ok ∧ t.got.status = .ok

theorem receiveMore_undisturbed (h : t.Undisturbed ioMs start) :
    (rest = [] ∧ receiveMore ioMs start t wanted received rest = .inl (fail .closedEarly)) ∨
      ∃ bytes, 0 < bytes ∧ bytes ≤ rest.length ∧
        receiveMore ioMs start t wanted received rest =
          .inr (received ++ rest.take bytes, rest.drop bytes) := by
  obtain ⟨htime, hready, hgot⟩ := h
  unfold receiveMore
  rw [if_neg (by omega), hready]
  dsimp only
  unfold recvSome
  rw [hgot]
  dsimp only
  by_cases hrest : rest = []
  · rw [if_pos hrest]
    exact .inl ⟨hrest, rfl⟩
  · rw [if_neg hrest]
    dsimp only
    rw [hgot]
    have hpositive := List.length_pos_iff.mpr hrest
    exact .inr ⟨_, Nat.lt_of_lt_of_le Nat.one_pos (Nat.le_max_left _ _), by omega, rfl⟩

/-- What a turn takes comes off the front of what is left, and is no more than was asked for. -/
theorem receiveMore_takes (hwanted : wanted ≠ 0)
    (h : receiveMore ioMs start t wanted received rest = .inr (received', rest')) :
    ∃ piece, received' = received ++ piece ∧ rest = piece ++ rest' ∧ piece.length ≤ wanted := by
  have hpositive : 0 < min wanted chunkBytes := by
    unfold chunkBytes
    omega
  unfold receiveMore at h
  by_cases htime : ioMs ≤ t.now - start
  · rw [if_pos htime] at h
    cases h
  · rw [if_neg htime] at h
    cases hready : t.ready.status <;> rw [hready] at h <;> dsimp only at h <;> try cases h
    unfold recvSome at h
    cases hgot : t.got.status <;> rw [hgot] at h <;> dsimp only at h
      <;> try (rw [hgot] at h; cases h)
    by_cases hrest : rest = []
    · rw [if_pos hrest] at h
      cases h
    · rw [if_neg hrest] at h
      dsimp only at h
      rw [hgot] at h
      cases h
      refine ⟨_, rfl, (List.take_append_drop _ rest).symm, ?_⟩
      rw [List.length_take]
      omega

theorem receiveLoop_outcome {turns : List Turn} (h : ∀ t ∈ turns, t.Undisturbed ioMs start)
    (henough : rest.length < turns.length) :
    receiveLoop ioMs start turns received rest = some (outcome (received ++ rest)) := by
  induction turns generalizing received rest with
  | nil => cases henough
  | cons t turns ih =>
    unfold receiveLoop
    cases hjudge : judge received with
    | inl result =>
      dsimp only
      rw [judge_outcome hjudge rest]
    | inr wanted =>
      dsimp only
      obtain ⟨hstate, -⟩ := judge_more hjudge
      have hturn : t.Undisturbed ioMs start := h t List.mem_cons_self
      rcases receiveMore_undisturbed hturn with ⟨hrest, hclosed⟩ | ⟨bytes, hpositive, hfits, hmore⟩
      · rw [hclosed, hrest, List.append_nil]
        unfold outcome
        dsimp only
        rw [hstate]
      · rw [hmore]
        dsimp only
        have hshorter : (rest.drop bytes).length < turns.length := by
          rw [List.length_drop]
          rw [List.length_cons] at henough
          omega
        rw [ih (fun t ht => h t (List.mem_cons_of_mem _ ht)) hshorter, List.append_assoc,
          List.take_append_drop]

/-- What the loop can have received, and what is then left, in any run. -/
inductive Reached (ioMs start : ℕ) (stream : Bytes) : Bytes → Bytes → Prop where
  | start : Reached ioMs start stream [] stream
  | turn {received rest : Bytes} {wanted : ℕ} {received' rest' : Bytes} (t : Turn) :
    Reached ioMs start stream received rest →
      judge received = .inr wanted →
      receiveMore ioMs start t wanted received rest = .inr (received', rest') →
      Reached ioMs start stream received' rest'

/-- No more than the limit of the head, unless the head says so. -/
def Held (received : Bytes) : Prop :=
  received.length ≤ maxHeaderBytes ∨
    received.length ≤ (frameResponse received).headSize + (frameResponse received).bodySize

theorem Held.length_le (h : Held received) : received.length ≤ maxHeaderBytes + maxBodyBytes := by
  have htotal := frameResponse_total_le received
  rcases h with hshort | hwithin
  · omega
  · omega

theorem held_step (hjudge : judge received = .inr wanted)
    (h : receiveMore ioMs start t wanted received rest = .inr (received', rest')) :
    Held received' := by
  obtain ⟨hstate, rfl⟩ := judge_more hjudge
  obtain ⟨hnonzero, htotal⟩ := want_eq hstate
  obtain ⟨piece, rfl, -, hpiece⟩ := receiveMore_takes hnonzero h
  have hlength : (received ++ piece).length ≤ if (frameResponse received).needed = 0 then
    maxHeaderBytes
      else (frameResponse received).headSize + (frameResponse received).bodySize := by
    rw [List.length_append, ← htotal]
    omega
  by_cases hneeded : (frameResponse received).needed = 0
  · rw [if_pos hneeded] at hlength
    exact .inl hlength
  · rw [if_neg hneeded] at hlength
    have hhead : (frameResponse received).headSize ≠ 0 := by
      rcases needMore_cases hstate with ⟨hzero, -⟩ | ⟨-, hhead, -⟩
      · exact absurd hzero hneeded
      · exact hhead
    obtain ⟨hheadSize, hbodySize⟩ := frameResponse_sizes hhead piece
    exact .inr (by rwa [hheadSize, hbodySize])

theorem reached_held (h : Reached ioMs start stream received rest) :
    received ++ rest = stream ∧ Held received := by
  induction h with
  | start => exact ⟨rfl, .inl (Nat.zero_le _)⟩
  | turn t hreached hjudge hmore ih =>
    obtain ⟨hstate, hwant⟩ := judge_more hjudge
    obtain ⟨piece, hgrown, hleft, -⟩ := receiveMore_takes (hwant ▸ (want_eq hstate).1) hmore
    refine ⟨?_, held_step hjudge hmore⟩
    rw [← ih.1, hgrown, hleft, List.append_assoc]

/-- The frame of a response is final once it is decided, and the receive loop ends the same way
however the stream is cut. It holds no more than a head and a body, asks for bytes up to the limit
of the head or the end of the response, and always asks for some. -/
theorem response_framing :
    (∀ b, (frameResponse b).state ≠ .needMore → ∀ c, frameResponse (b ++ c) = frameResponse b) ∧
    (∀ b, (frameResponse b).state = .needMore → (frameResponse b).needed ≠ 0 → ∀ c,
      (c.length = (frameResponse b).needed → (frameResponse (b ++ c)).state = .complete) ∧
        (c.length < (frameResponse b).needed → (frameResponse (b ++ c)).state = .needMore)) ∧
    ∀ ioMs start stream,
      (∀ turns : List Turn, (∀ t ∈ turns, t.Undisturbed ioMs start) → stream.length < turns.length →
        receiveLoop ioMs start turns [] stream = some (outcome stream)) ∧
      ∀ received rest, Reached ioMs start stream received rest →
        received.length ≤ maxHeaderBytes + maxBodyBytes ∧
        (received.length ≤ maxHeaderBytes ∨
          received.length ≤ (frameResponse received).headSize + (frameResponse received).bodySize) ∧
        ((frameResponse received).state = .needMore →
          want (frameResponse received) received ≠ 0 ∧
          ∀ t received' rest',
            receiveMore ioMs start t (want (frameResponse received) received) received rest =
              .inr (received', rest') →
            received'.length ≤ if (frameResponse received).needed = 0 then maxHeaderBytes
              else (frameResponse received).headSize + (frameResponse received).bodySize) := by
  refine ⟨fun b h c => frameResponse_append h c,
    fun b h hneeded c => ⟨fun hall => ?_, fun hfew => ?_⟩,
    fun ioMs start stream => ⟨fun turns h henough => receiveLoop_outcome h henough,
      fun received rest hreached => ?_⟩⟩
  · rw [frameResponse_needed h hneeded c, if_neg (by omega)]
  · rw [frameResponse_needed h hneeded c, if_pos hfew]
    exact h
  · have hheld := (reached_held hreached).2
    refine ⟨hheld.length_le, hheld, fun hstate => ?_⟩
    obtain ⟨hnonzero, htotal⟩ := want_eq hstate
    refine ⟨hnonzero, fun t received' rest' hmore => ?_⟩
    obtain ⟨piece, rfl, -, hpiece⟩ := receiveMore_takes hnonzero hmore
    rw [← htotal, List.length_append]
    omega

/-! ## A response of forty bytes -/

def sampleResponse : Bytes :=
  [0x48, 0x54, 0x54, 0x50, 0x2F, 0x31, 0x2E, 0x31, 0x20, 0x32, 0x30, 0x30, 0x20, 0x4F,
    0x4B, 0x0D, 0x0A, 0x43, 0x6F, 0x6E, 0x74, 0x65, 0x6E, 0x74, 0x2D, 0x4C, 0x65, 0x6E,
    0x67, 0x74, 0x68, 0x3A, 0x20, 0x32, 0x0D, 0x0A, 0x0D, 0x0A, 0x7B, 0x7D]

/-- A turn that finds `piece` bytes. -/
def sampleTurn (piece : ℕ) : Turn where
  now := 0
  ready := {}
  got := {}
  piece := piece

/-- The response is the same in single bytes and at once, with more bytes behind it or none. -/
theorem sampleResponse_received :
    receiveLoop 3000 0 (List.replicate 42 (sampleTurn 1)) [] (sampleResponse ++ [lf]) =
        some { status := .complete, response := sampleResponse } ∧
      receiveLoop 3000 0 (List.replicate 41 (sampleTurn 2048)) [] sampleResponse =
        some { status := .complete, response := sampleResponse } := by
  have hall (n piece : ℕ) : ∀ t ∈ List.replicate n (sampleTurn piece), t.Undisturbed 3000 0 := by
    intro t ht
    rw [List.eq_of_mem_replicate ht]
    exact ⟨Nat.zero_lt_succ 2999, rfl, rfl⟩
  constructor
  · exact ((response_framing.2.2 3000 0 (sampleResponse ++ [lf])).1 _ (hall 42 1) (by decide)).trans
      (by decide +kernel)
  · exact ((response_framing.2.2 3000 0 sampleResponse).1 _ (hall 41 2048) (by decide)).trans
      (by decide +kernel)

/-- A byte behind a response that comes in with it is read before the end of the response is known.
-/
theorem reads_past_response : ∃ received rest,
    Reached 3000 0 (sampleResponse ++ [lf]) received rest ∧
    (frameResponse received).state = .complete ∧
      (frameResponse received).headSize + (frameResponse received).bodySize < received.length := by
  have hjudge : judge [] = .inr 2048 := by decide +kernel
  have hmore : receiveMore 3000 0 (sampleTurn 2048) 2048 [] (sampleResponse ++ [lf]) =
      .inr (sampleResponse ++ [lf], []) := by decide +kernel
  exact ⟨sampleResponse ++ [lf], [], .turn (sampleTurn 2048) .start hjudge hmore, by decide +kernel,
    by decide +kernel⟩

end Sangtachi.Exchange
