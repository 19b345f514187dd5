import Sangtachi.Tunnel.Packet

/-! # The round trip of the roster payload

What `encodeRoster` writes has a length the type allows, and a player that has accepted no later
generation from its host reads the same members out of it. -/
namespace Sangtachi.Packet

open Sangtachi.BigEndian

variable {m : RosterMember} {members : List RosterMember} {name rest bytes : List U8}
  {generation : U32}
  {count room : ℕ}

def RosterMember.raw (m : RosterMember) : RawMember :=
  ⟨m.peerId, m.virtualIp, if m.connected then rosterFlagConnected else 0, m.name⟩

theorem flag_read (connected : Bool) :
    decide ((if connected = true then rosterFlagConnected else 0) &&& rosterFlagConnected ≠ 0) =
      connected := by
  cases connected <;> decide

theorem flag_reserved (connected : Bool) :
    (if connected then rosterFlagConnected else 0) &&& rosterFlagsReserved = 0 := by
  cases connected <;> decide

theorem raw_toMember (m : RosterMember) : m.raw.toMember = m := by
  obtain ⟨peerId, virtualIp, connected, name⟩ := m
  have hread := flag_read connected
  unfold RosterMember.raw RawMember.toMember
  dsimp only at hread ⊢
  rw [hread]

theorem length_of_isValidName (h : isValidName name = true) :
    1 ≤ name.length ∧ name.length ≤ maxNameLen := by
  simp only [isValidName, Bool.and_eq_true, Bool.not_eq_true', decide_eq_true_eq] at h
  refine ⟨?_, h.1.2⟩
  cases name with
  | nil => simp at h
  | cons c rest => exact Nat.succ_le_succ (Nat.zero_le _)

theorem encodeMember_length (m : RosterMember) :
    (encodeMember m).length = rosterMemberFixedSize + m.name.length := by
  simp [encodeMember, rosterMemberFixedSize]
  omega

theorem readMembers_encodeMember (hname : isValidName m.name = true) (count : ℕ) (rest : List U8) :
    readMembers (count + 1) (encodeMember m ++ rest) =
      (readMembers count rest).map fun r => (m.raw :: r.1, r.2) := by
  obtain ⟨hpos, hmax⟩ := length_of_isValidName hname
  have hlength : (encodeMember m ++ rest).length =
    rosterMemberFixedSize + m.name.length + rest.length := by
    rw [List.length_append, encodeMember_length]
  have hname8 : (read8 (encodeMember m ++ rest) 9).toNat = m.name.length := by
    have hbyte : read8 (encodeMember m ++ rest) 9 = BitVec.ofNat 8 m.name.length := rfl
    rw [hbyte, BitVec.toNat_ofNat]
    unfold maxNameLen at hmax
    omega
  have hpeer : read32 (encodeMember m ++ rest) 0 = m.peerId := join32 _
  have hip : read32 (encodeMember m ++ rest) 4 = m.virtualIp := join32 _
  have hflags : read8 (encodeMember m ++ rest) 8 = m.raw.flags := rfl
  have hread :
    ((encodeMember m ++ rest).drop rosterMemberFixedSize).take m.name.length = m.name := by
    have hdrop : (encodeMember m ++ rest).drop rosterMemberFixedSize = m.name ++ rest := rfl
    rw [hdrop, List.take_left]
  have hrest : (encodeMember m ++ rest).drop (rosterMemberFixedSize + m.name.length) = rest := by
    rw [← encodeMember_length, List.drop_left]
  rw [readMembers, if_neg (by omega), hname8, if_neg (by omega), if_neg (by omega), hpeer, hip,
    hflags, hread, hrest]
  cases readMembers count rest with
  | none => rfl
  | some r => rfl

theorem readMembers_encode (hnames : ∀ m ∈ members, isValidName m.name = true) :
    readMembers members.length (members.flatMap encodeMember) =
      some (members.map RosterMember.raw, []) := by
  induction members with
  | nil => rfl
  | cons m rest ih =>
    have hrest := ih fun x hx => hnames x (List.mem_cons_of_mem _ hx)
    rw [List.flatMap_cons, List.length_cons,
      readMembers_encodeMember (hnames m List.mem_cons_self), hrest]
    rfl

theorem encodeRoster_some (h : encodeRoster generation count members room = some bytes) :
    (1 ≤ count ∧ count ≤ maxPeers) ∧ (∀ m ∈ members.take count, isValidName m.name = true) ∧
      bytes = write32 generation ++ [BitVec.ofNat 8 count] ++
        (members.take count).flatMap encodeMember := by
  unfold encodeRoster at h
  split_ifs at h with hcount hnames
  · rw [not_or, not_lt, not_lt] at hcount
    refine ⟨hcount, ?_, ?_⟩
    · intro m hm
      simp only [List.any_eq_true, not_exists, not_and] at hnames
      simpa using (by simpa using hnames m hm : _ ∧ _).2
    · dsimp only at h
      split_ifs at h with hroom
      exact (Option.some.inj h).symm

/-- The sender-side checks are the receiver-side ones: the roster comes out as it went in. -/
theorem decodeRoster_encodeRoster (h : encodeRoster generation count members room = some bytes)
    (hcount : count ≤ members.length) (last : Option U32)
    (hlast : ∀ g, last = some g → g ≤ generation) :
    decodeRoster bytes ⟨true, last⟩ = .ok ⟨generation, members.take count⟩ := by
  obtain ⟨⟨hpos, hmax⟩, hnames, rfl⟩ := encodeRoster_some h
  generalize hkept : members.take count = kept at hnames ⊢
  have hlength : kept.length = count := by
    rw [← hkept, List.length_take]
    omega
  have hgeneration : read32
    (write32 generation ++ [BitVec.ofNat 8 count] ++ kept.flatMap encodeMember) 0 = generation :=
    join32 _
  have hcount8 :
    (read8 (write32 generation ++ [BitVec.ofNat 8 count] ++ kept.flatMap encodeMember) 4).toNat =
      count := by
    have hbyte :
      read8 (write32 generation ++ [BitVec.ofNat 8 count] ++ kept.flatMap encodeMember) 4 =
        BitVec.ofNat 8 count := rfl
    rw [hbyte, BitVec.toNat_ofNat]
    unfold maxPeers at hmax
    omega
  have hbody : (write32 generation ++ [BitVec.ofNat 8 count] ++ kept.flatMap encodeMember).drop
    rosterHeadSize =
      kept.flatMap encodeMember := rfl
  have hhead : ¬ (write32 generation ++ [BitVec.ofNat 8 count] ++
    kept.flatMap encodeMember).length < rosterHeadSize := by
    rw [List.length_append]
    exact not_lt.mpr (Nat.le_add_right _ _)
  have hread : readMembers count (kept.flatMap encodeMember) =
    some (kept.map RosterMember.raw, []) := by
    rw [← hlength]
    exact readMembers_encode hnames
  have hstale : ¬ last.any (generation < ·) = true := by
    cases last with
    | none => simp
    | some g => simpa using hlast g rfl
  have hflags :
    ¬ (kept.map RosterMember.raw).any (fun m => m.flags &&& rosterFlagsReserved ≠ 0) = true := by
    rw [Bool.not_eq_true, List.any_eq_false]
    intro x hx
    obtain ⟨m, -, rfl⟩ := List.mem_map.mp hx
    have hzero : m.raw.flags &&& rosterFlagsReserved = 0 := flag_reserved m.connected
    simp [hzero]
  have hvalid : (kept.map RosterMember.raw).all (fun m => isValidName m.name) = true := by
    rw [List.all_map, List.all_eq_true]
    exact hnames
  have hback : (kept.map RosterMember.raw).map RawMember.toMember = kept := by
    rw [List.map_map]
    exact (List.map_congr_left fun m _ => raw_toMember m).trans (List.map_id _)
  unfold decodeRoster
  rw [if_neg (by simp), if_neg hhead]
  simp only [hgeneration, hcount8, hbody, hread]
  rw [if_neg (by omega), if_neg (by simp), if_neg hstale, if_neg hflags,
    if_neg (by simp [hvalid]), hback]

theorem flatMap_encodeMember_length (hnames : ∀ m ∈ members, isValidName m.name = true) :
    members.length * (rosterMemberFixedSize + 1) ≤ (members.flatMap encodeMember).length ∧
      (members.flatMap encodeMember).length ≤
        members.length * (rosterMemberFixedSize + maxNameLen) := by
  induction members with
  | nil => exact ⟨le_rfl, le_rfl⟩
  | cons m rest ih =>
    obtain ⟨hlow, hhigh⟩ := ih fun x hx => hnames x (List.mem_cons_of_mem _ hx)
    obtain ⟨hpos, hmax⟩ := length_of_isValidName (hnames m List.mem_cons_self)
    rw [List.flatMap_cons, List.length_append, encodeMember_length, List.length_cons,
      Nat.add_mul, Nat.add_mul]
    omega

theorem encodeRoster_length (h : encodeRoster generation count members room = some bytes)
    (hcount : count ≤ members.length) : payloadLengthOk .roster bytes.length = true := by
  obtain ⟨⟨hpos, hmax⟩, hnames, rfl⟩ := encodeRoster_some h
  have hlength : (members.take count).length = count := by
    rw [List.length_take]
    omega
  obtain ⟨hlow, hhigh⟩ := flatMap_encodeMember_length hnames
  rw [hlength] at hlow hhigh
  have hall : (write32 generation ++ [BitVec.ofNat 8 count] ++
    (members.take count).flatMap encodeMember).length =
      rosterHeadSize + ((members.take count).flatMap encodeMember).length := by
    rw [List.length_append]
    rfl
  simp only [payloadLengthOk, decide_eq_true_eq, hall]
  simp only [rosterMinPayload, rosterMaxPayload, rosterMemberFixedSize, maxNameLen,
    maxPeers] at hlow hhigh hmax ⊢
  omega

end Sangtachi.Packet
