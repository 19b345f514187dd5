import Sangtachi.Peer.Moves

/-! # Replies and probes

HELLO_ACK, PONG and the probe HELLO are the packets that may go to an address the session has
not verified. What each of them changes, and what the shared budget has to do with it. -/
namespace Sangtachi.Peer

open Sangtachi.BigEndian Sangtachi.Packet Sangtachi.Replay Sangtachi.InnerIpv4

variable {C : SessionConfig} {E : SessionIo} {s s' : Session} {T : Millis}

/-- The outcome of asking the budget for one datagram to `dest`. -/
inductive Spend (C : SessionConfig) (s : Session) (dest : Endpoint) (T : Millis) :
    Bool → Session → Prop where
  | free : isVerified C s dest = true → Spend C s dest T true s
  | refused : isVerified C s dest = false → (refillBudget s T).budgetMilli < tokenCost →
      Spend C s dest T false ((refillBudget s T).count .dropUnverifiedTx)
  | paid : isVerified C s dest = false → tokenCost ≤ (refillBudget s T).budgetMilli →
      Spend C s dest T true
        { refillBudget s T with budgetMilli := (refillBudget s T).budgetMilli - tokenCost }

theorem spendFor_spend (s : Session) (dest : Endpoint) (T : Millis) :
    Spend C s dest T (spendFor C s dest T).1 (spendFor C s dest T).2 := by
  unfold spendFor
  dsimp only
  split_ifs with hv hb
  · exact .free hv
  · exact .refused (by simpa using hv) hb
  · exact .paid (by simpa using hv) (not_lt.mp hb)

theorem refillBudget_updates (s : Session) (T : Millis) :
    ∃ milli stamp, refillBudget s T = { s with budgetMilli := milli, budgetAt := stamp } := by
  unfold refillBudget
  split_ifs
  · exact ⟨_, _, rfl⟩
  · exact ⟨s.budgetMilli, s.budgetAt, rfl⟩

theorem Spend.updates {dest : Endpoint} {granted : Bool} (h : Spend C s dest T granted s') :
    ∃ counters milli stamp,
      s' = { s with counters := counters, budgetMilli := milli, budgetAt := stamp } := by
  obtain ⟨milli, stamp, hr⟩ := refillBudget_updates s T
  cases h with
  | free _ => exact ⟨s.counters, s.budgetMilli, s.budgetAt, rfl⟩
  | refused _ _ =>
    rw [hr]
    exact ⟨_, _, _, rfl⟩
  | paid _ _ =>
    rw [hr]
    exact ⟨s.counters, _, _, rfl⟩

theorem Spend.refused_unverified {dest : Endpoint} (h : Spend C s dest T false s') :
    isVerified C s dest = false := by
  cases h with
  | refused hv _ => exact hv

/-- `u` is `s` after one datagram was handed to the socket. -/
inductive SentOne (C : SessionConfig) (E : SessionIo) (s : Session) (type : PacketType)
    (payload : List U8) (dest : Endpoint) : Session → Prop where
  | mk (counters : Counter → ℕ) (bytes : List U8) :
      buildPacket type ⟨C.localPeerId, C.localEpoch, s.nextSeq⟩ payload maxDatagram =
        some bytes →
      SentOne C E s type payload dest
        { s with
          nextSeq := s.nextSeq + 1
          sends := s.sends + 1
          counters := counters
          out := s.out ++ [.sent (nextSent C E s type payload bytes dest)] }

theorem sendPacket_sentOne {type : PacketType} {payload : List U8} (dest : Endpoint)
    (h : payloadLengthOk type payload.length = true) :
    SentOne C E s type payload dest (sendPacket C E s type payload dest).2 ∧
      (sendPacket C E s type payload dest).1 = E.sendOk s.sends := by
  obtain ⟨counters, calls, hs, ⟨-, -, hn⟩ | ⟨bytes, hb, rfl, hok⟩⟩ :=
    sendPacket_spec (C := C) (E := E) s type payload dest
  · rw [h] at hn
    cases hn
  · rw [hs]
    exact ⟨⟨counters, bytes, hb⟩, hok⟩

theorem helloLength_ok (nonce : Nonce) (vip : U32) :
    payloadLengthOk .hello (encodeHello ⟨nonce, vip⟩).length = true ∧
      payloadLengthOk .helloAck (encodeHello ⟨nonce, vip⟩).length = true := by
  rw [length_encodeHello]
  exact ⟨rfl, rfl⟩

theorem pingLength_ok (pingId : U64) :
    payloadLengthOk .pong (encodePing pingId).length = true ∧
      payloadLengthOk .ping (encodePing pingId).length = true := ⟨rfl, rfl⟩

/-- Nothing went out, or one HELLO_ACK did and its success is the new evidence. -/
theorem sendHelloAck_cases (s : Session) (echo : Nonce) (dest : Endpoint) (T : Millis) :
    Spend C s dest T false (sendHelloAck C E s echo dest T) ∨
      ∃ u v counters, Spend C s dest T true u ∧
        SentOne C E u .helloAck (encodeHello ⟨echo, C.localVirtualIp⟩) dest v ∧
        sendHelloAck C E s echo dest T =
          { v with sentAck := u.sentAck || E.sendOk u.sends, counters := counters } := by
  have hspend := spendFor_spend (C := C) s dest T
  unfold sendHelloAck
  split
  · next u heq =>
    rw [heq] at hspend
    exact .inl hspend
  · next u heq =>
    rw [heq] at hspend
    obtain ⟨hsent, hok⟩ := sendPacket_sentOne (C := C) (E := E) (s := u) dest
      (helloLength_ok echo C.localVirtualIp).2
    right
    split
    · next v heq' =>
      rw [heq'] at hsent hok
      refine ⟨u, v, v.counters, hspend, hsent, ?_⟩
      rw [← show true = E.sendOk u.sends from hok, Bool.or_true]
    · next v heq' =>
      rw [heq'] at hsent hok
      refine ⟨u, v, (v.count .txErrAck).counters, hspend, hsent, ?_⟩
      rw [← show false = E.sendOk u.sends from hok, Bool.or_false]
      have hflag : v.sentAck = u.sentAck := by
        cases hsent
        rfl
      rw [← hflag]
      rfl

theorem sendPong_cases (s : Session) (pingId : U64) (dest : Endpoint) (T : Millis) :
    Spend C s dest T false (sendPong C E s pingId dest T) ∨
      ∃ u, Spend C s dest T true u ∧
        SentOne C E u .pong (encodePing pingId) dest (sendPong C E s pingId dest T) := by
  have hspend := spendFor_spend (C := C) s dest T
  unfold sendPong
  split
  · next u heq =>
    rw [heq] at hspend
    exact .inl hspend
  · next u heq =>
    rw [heq] at hspend
    exact .inr ⟨u, hspend, (sendPacket_sentOne dest (pingLength_ok pingId).1).1⟩

/-- A probe begins in a table cleared of old probes: nothing more happens, or the budget refuses,
or a path nobody probes yet gets its entry and its one HELLO. -/
theorem startPathProbe_cases (s : Session) (source : Endpoint) (T : Millis) :
    SameCore (expireProbes s T) (startPathProbe C E s source T) ∨
      (∃ draws, Spend C { expireProbes s T with draws := draws } source T false
        (startPathProbe C E s source T)) ∨
      ∃ draws k nonce u, (∀ q ∈ (expireProbes s T).probes, q.dest ≠ source) ∧
        (expireProbes s T).probes.length < maxProbePaths ∧ E.draw k = some nonce ∧
        Spend C { expireProbes s T with draws := draws } source T true u ∧
        SentOne C E { u with probes := u.probes ++ [⟨source, nonce, T, false⟩] } .hello
          (encodeHello ⟨nonce, C.localVirtualIp⟩) source (startPathProbe C E s source T) := by
  unfold startPathProbe
  dsimp only
  by_cases hany : (expireProbes s T).probes.any (·.dest = source)
  · rw [if_pos hany]
    left
    constructor <;> rfl
  rw [if_neg hany]
  by_cases hfull : maxProbePaths ≤ (expireProbes s T).probes.length
  · rw [if_pos hfull]
    exact .inl (count_core _)
  rw [if_neg hfull]
  cases hdraw : E.draw (expireProbes s T).draws with
  | none =>
    left
    constructor <;> rfl
  | some nonce =>
    right
    have hspend := spendFor_spend (C := C)
      { expireProbes s T with draws := (expireProbes s T).draws + 1 } source T
    dsimp only
    split
    · next u heq =>
      rw [heq] at hspend
      exact .inl ⟨_, hspend⟩
    · next u heq =>
      rw [heq] at hspend
      refine .inr ⟨_, _, nonce, u, ?_, not_le.mp hfull, hdraw, hspend,
        (sendPacket_sentOne source (helloLength_ok nonce C.localVirtualIp).1).1⟩
      intro q hq hdest
      exact hany (List.any_eq_true.mpr ⟨q, hq, by simpa using hdest⟩)

end Sangtachi.Peer
