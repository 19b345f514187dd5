import Sangtachi.Lobby.Requests
import Sangtachi.Tunnel.Router

/-! # Classification of received datagrams

The source is looked at first: a datagram from an address that would reflect or multiply an answer
goes nowhere. Of the rest, the first byte tells STUN from the tunnel. -/
namespace Sangtachi.Tunnel

open Sangtachi.BigEndian Sangtachi.Packet Sangtachi.Peer
open Sangtachi.Lobby
  (OwnSubnet blocksBroadcast rejectedByHygiene sanitizeReceivedCandidates keepCandidate)

def unspecified : U32 := 0x00000000
def loopbackNetwork : U32 := 0x7F000000
def loopbackMask : U32 := 0xFF000000

def classMask : U8 := 0xC0
def classStun : U8 := 0x00
def classTunnel : U8 := 0x40

def stunHeaderSize : ℕ := 20
def stunCookie : U32 := 0x2112A442

inductive RxClass where
  | badSource | stun | tunnelCandidate | unclassified
  deriving DecidableEq, Repr

def isLoopback (address : U32) : Bool := address &&& loopbackMask = loopbackNetwork

def classifyPayload (payload : List U8) : RxClass :=
  if payload = [] then .unclassified
  else if read8 payload 0 &&& classMask = classStun ∧ stunHeaderSize ≤ payload.length ∧
    read32 payload 4 = stunCookie then
    .stun
  else if read8 payload 0 &&& classMask = classTunnel then .tunnelCandidate
  else .unclassified

def classifyDatagram (source : Endpoint) (payload : List U8) (own : List OwnSubnet) : RxClass :=
  if source.port = 0 then .badSource
  else if source.address = unspecified ∨ source.address = limitedBroadcast then .badSource
  else if source.address &&& multicastMask = multicastNetwork then .badSource
  -- loopback passes before the own subnets: a very wide one may have its broadcast address there
  else if !isLoopback source.address ∧ blocksBroadcast own source.address then .badSource
  else classifyPayload payload

/-- An answer to the address reaches one computer at most, as far as the own subnets can tell. -/
structure Direct (own : List OwnSubnet) (e : Endpoint) : Prop where
  port : e.port ≠ 0
  multicast : e.address &&& multicastMask ≠ multicastNetwork
  broadcast : e.address ≠ limitedBroadcast
  specified : e.address ≠ unspecified
  subnet : isLoopback e.address = false → blocksBroadcast own e.address = false

variable {own : List OwnSubnet} {e : Endpoint} {payload : List U8}

theorem classifyDatagram_cases (own : List OwnSubnet) (e : Endpoint) (payload : List U8) :
    classifyDatagram e payload own = .badSource ∨
      Direct own e ∧ classifyDatagram e payload own = classifyPayload payload := by
  unfold classifyDatagram
  by_cases hport : e.port = 0
  · exact .inl (if_pos hport)
  rw [if_neg hport]
  by_cases hnamed : e.address = unspecified ∨ e.address = limitedBroadcast
  · exact .inl (if_pos hnamed)
  rw [if_neg hnamed]
  by_cases hmulticast : e.address &&& multicastMask = multicastNetwork
  · exact .inl (if_pos hmulticast)
  rw [if_neg hmulticast]
  by_cases hsubnet : !isLoopback e.address ∧ blocksBroadcast own e.address
  · exact .inl (if_pos hsubnet)
  rw [if_neg hsubnet]
  rw [not_or] at hnamed
  refine .inr ⟨⟨hport, hmulticast, hnamed.2, hnamed.1, ?_⟩, rfl⟩
  intro hnot
  rw [hnot] at hsubnet
  simpa using hsubnet

theorem direct_of_tunnelCandidate (h : classifyDatagram e payload own = .tunnelCandidate) :
    Direct own e := by
  rcases classifyDatagram_cases own e payload with hbad | ⟨hdirect, -⟩
  · rw [hbad] at h
    cases h
  · exact hdirect

theorem shift_of_mask {a : U32} (h : a &&& multicastMask = multicastNetwork) : a >>> 28 = 0xE := by
  have hshift : a >>> 28 = (a &&& multicastMask) >>> 28 := by
    apply BitVec.eq_of_getLsbD_eq
    intro i hi
    simp only [BitVec.getLsbD_ushiftRight, BitVec.getLsbD_and, multicastMask]
    by_cases hlow : i < 4
    · interval_cases i <;> simp
    · have hout : a.getLsbD (28 + i) = false := BitVec.getLsbD_of_ge a (28 + i) (by omega)
      rw [hout, Bool.false_and]
  rw [hshift, h]
  decide

theorem direct_of_hygiene {c : Lobby.Candidate} (h : rejectedByHygiene own c = false) :
    Direct own c.endpoint := by
  unfold rejectedByHygiene at h
  simp only [Bool.or_eq_false_iff, decide_eq_false_iff_not] at h
  obtain ⟨⟨⟨⟨⟨hport, hmulticast⟩, hreserved⟩, hnetwork⟩, hloopback⟩, hsubnet⟩ := h
  constructor
  · exact hport
  · intro hmask
    exact hmulticast (shift_of_mask hmask)
  · intro hlimited
    apply hreserved
    rw [hlimited]
    decide
  · intro hzero
    apply hnetwork
    rw [hzero]
    decide
  · intro _
    exact hsubnet

theorem foldl_keepCandidate {received out : List Lobby.Candidate} {c : Lobby.Candidate}
    (hout : ∀ x ∈ out, rejectedByHygiene own x = false)
    (hc : c ∈ received.foldl (keepCandidate own) out) :
    rejectedByHygiene own c = false := by
  induction received generalizing out with
  | nil => exact hout c hc
  | cons x rest ih =>
    refine ih ?_ hc
    intro y hy
    unfold keepCandidate at hy
    by_cases hx : rejectedByHygiene own x = true
    · rw [if_pos hx] at hy
      exact hout y hy
    · rw [if_neg hx] at hy
      by_cases hknown : out.any (·.endpoint = x.endpoint) = true
      · rw [if_pos hknown] at hy
        exact hout y hy
      · rw [if_neg hknown] at hy
        rcases List.mem_append.mp hy with hy | hy
        · exact hout y hy
        · rw [List.mem_singleton.mp hy]
          simpa using hx

theorem direct_of_received {received : List Lobby.Candidate} {c : Lobby.Candidate}
    (hc : c ∈ sanitizeReceivedCandidates received own) : Direct own c.endpoint := by
  apply direct_of_hygiene
  exact foldl_keepCandidate (by intro x hx; cases hx) (List.mem_of_mem_take hc)

end Sangtachi.Tunnel
