import Sangtachi.Tunnel.RosterCodec

/-! # The format of the roster payload

A payload is a head, a count and that many members, one behind the other. The decoder takes such a
payload apart into the members it was put together from, and finds no others. -/
namespace Sangtachi.Packet

open Sangtachi.BigEndian

variable {input rest : List U8} {m : RawMember} {members : List RawMember} {generation : U32}

def RawMember.encoded (m : RawMember) : List U8 :=
  write32 m.peerId ++ write32 m.virtualIp ++ [m.flags, BitVec.ofNat 8 m.name.length] ++ m.name

def RawMember.Fits (m : RawMember) : Prop := 1 ≤ m.name.length ∧ m.name.length ≤ maxNameLen

def nameLength (bytes : List U8) : ℕ := (read8 bytes 9).toNat

def HoldsMember (bytes : List U8) : Prop :=
  rosterMemberFixedSize ≤ bytes.length ∧ (1 ≤ nameLength bytes ∧ nameLength bytes ≤ maxNameLen) ∧
    nameLength bytes ≤ bytes.length - rosterMemberFixedSize

instance (bytes : List U8) : Decidable (HoldsMember bytes) :=
  inferInstanceAs (Decidable (_ ∧ _ ∧ _))

def frontMember (bytes : List U8) : RawMember :=
  ⟨read32 bytes 0, read32 bytes 4, read8 bytes 8,
    (bytes.drop rosterMemberFixedSize).take (nameLength bytes)⟩

theorem RawMember.Fits.length_byte (h : m.Fits) :
    (BitVec.ofNat 8 m.name.length).toNat = m.name.length := by
  have hmax := h.2
  rw [BitVec.toNat_ofNat]
  unfold maxNameLen at hmax
  omega

theorem RawMember.encoded_length (m : RawMember) :
    m.encoded.length = rosterMemberFixedSize + m.name.length := by
  simp [RawMember.encoded, rosterMemberFixedSize]
  omega

theorem nameLength_encoded (h : m.Fits) :
    nameLength (m.encoded ++ rest) = m.name.length := h.length_byte

theorem holdsMember_encoded (h : m.Fits) : HoldsMember (m.encoded ++ rest) := by
  have hlength : (m.encoded ++ rest).length =
    rosterMemberFixedSize + m.name.length + rest.length := by
    rw [List.length_append, m.encoded_length]
  unfold HoldsMember
  rw [nameLength_encoded h, hlength]
  exact ⟨by omega, h, by omega⟩

theorem frontMember_encoded (h : m.Fits) : frontMember (m.encoded ++ rest) = m := by
  have hpeer : read32 (m.encoded ++ rest) 0 = m.peerId := join32 _
  have hip : read32 (m.encoded ++ rest) 4 = m.virtualIp := join32 _
  have hflags : read8 (m.encoded ++ rest) 8 = m.flags := rfl
  have hname : ((m.encoded ++ rest).drop rosterMemberFixedSize).take m.name.length = m.name := by
    have hdrop : (m.encoded ++ rest).drop rosterMemberFixedSize = m.name ++ rest := rfl
    rw [hdrop, List.take_left]
  unfold frontMember
  rw [hpeer, hip, hflags, nameLength_encoded h, hname]

theorem encoded_frontMember (h : HoldsMember input) :
    (frontMember input).Fits ∧ (frontMember input).name.length = nameLength input ∧
      input = (frontMember input).encoded ++
        input.drop (rosterMemberFixedSize + nameLength input) := by
  obtain ⟨hfixed, hname, hend⟩ := h
  have hlength : (frontMember input).name.length = nameLength input := by
    simp only [frontMember, List.length_take, List.length_drop]
    omega
  have hbyte : BitVec.ofNat 8 (frontMember input).name.length = read8 input 9 := by
    rw [hlength, nameLength, BitVec.ofNat_toNat]
    exact BitVec.setWidth_eq _
  have hsplit : (frontMember input).name ++ input.drop (rosterMemberFixedSize + nameLength input) =
      input.drop rosterMemberFixedSize := by
    rw [← List.drop_drop]
    exact List.take_append_drop _ _
  refine ⟨by rwa [RawMember.Fits, hlength], hlength, ?_⟩
  unfold rosterMemberFixedSize at hfixed
  have hpeer := drop_read32 input 0 (by omega)
  have hip := drop_read32 input 4 (by omega)
  have hflags := drop_read8 input 8 (by omega)
  have hlen := drop_read8 input 9 (by omega)
  rw [List.drop_zero, hip, hflags, hlen] at hpeer
  unfold RawMember.encoded
  rw [hbyte, List.append_assoc, hsplit, List.append_assoc, List.append_assoc]
  exact hpeer

theorem readMembers_succ (count : ℕ) (input : List U8) :
    readMembers (count + 1) input =
      if HoldsMember input then
        (readMembers count (input.drop (rosterMemberFixedSize + nameLength input))).map
          fun r => (frontMember input :: r.1, r.2)
      else none := by
  rw [readMembers]
  by_cases hfixed : input.length < rosterMemberFixedSize
  · rw [if_pos hfixed, if_neg]
    exact fun h => absurd h.1 (by omega)
  rw [if_neg hfixed]
  change (if nameLength input < 1 ∨ maxNameLen < nameLength input then none else _) = _
  by_cases hname : nameLength input < 1 ∨ maxNameLen < nameLength input
  · rw [if_pos hname, if_neg]
    exact fun h => absurd h.2.1 (by omega)
  rw [if_neg hname]
  by_cases hend : input.length - rosterMemberFixedSize < nameLength input
  · rw [if_neg (c := HoldsMember input) fun h => absurd h.2.2 (by omega)]
    exact if_pos hend
  rw [if_pos (c := HoldsMember input) ⟨by omega, by omega, by omega⟩]
  refine (if_neg hend).trans ?_
  cases hrest : readMembers count (input.drop (rosterMemberFixedSize + nameLength input)) with
  | none =>
    have hrest' :
      readMembers count (input.drop (rosterMemberFixedSize + (read8 input 9).toNat)) = none := hrest
    rw [hrest']
    rfl
  | some r =>
    have hrest' : readMembers count (input.drop (rosterMemberFixedSize + (read8 input 9).toNat)) =
      some r := hrest
    rw [hrest']
    rfl

/-- The member loop takes apart what is put together from members, and nothing else. -/
theorem readMembers_some {count : ℕ} :
    readMembers count input = some (members, rest) ↔
      members.length = count ∧ (∀ m ∈ members, m.Fits) ∧
        input = members.flatMap RawMember.encoded ++ rest := by
  induction count generalizing input members with
  | zero =>
    constructor
    · intro h
      simp only [readMembers, Option.some.injEq, Prod.mk.injEq] at h
      obtain ⟨rfl, rfl⟩ := h
      simp
    · rintro ⟨hlength, -, rfl⟩
      rw [List.length_eq_zero_iff] at hlength
      subst hlength
      rfl
  | succ count ih =>
    rw [readMembers_succ]
    constructor
    · intro h
      split at h
      · rename_i hholds
        obtain ⟨hfits, hlength, hinput⟩ := encoded_frontMember hholds
        obtain ⟨⟨members', rest'⟩, hread, heq⟩ := Option.map_eq_some_iff.mp h
        simp only [Prod.mk.injEq] at heq
        obtain ⟨rfl, rfl⟩ := heq
        obtain ⟨hcount, hall, hrest⟩ := ih.mp hread
        refine ⟨by rw [List.length_cons, hcount], ?_, ?_⟩
        · intro m hm
          rcases List.mem_cons.mp hm with rfl | hm
          · exact hfits
          · exact hall m hm
        · rw [List.flatMap_cons, List.append_assoc, ← hrest]
          exact hinput
      · cases h
    · rintro ⟨hlength, hall, hinput⟩
      cases members with
      | nil => simp at hlength
      | cons m members =>
        have hfits := hall m List.mem_cons_self
        rw [List.flatMap_cons, List.append_assoc] at hinput
        subst hinput
        have hread :=
          ih.mpr ⟨Nat.succ.inj hlength, fun x hx => hall x (List.mem_cons_of_mem _ hx), rfl⟩
        have hdrop : (m.encoded ++ (members.flatMap RawMember.encoded ++ rest)).drop
            (rosterMemberFixedSize + m.name.length) =
              members.flatMap RawMember.encoded ++ rest := by
          rw [← m.encoded_length, List.drop_left]
        rw [if_pos (holdsMember_encoded hfits), nameLength_encoded hfits, hdrop, hread,
          frontMember_encoded hfits]
        rfl

/-- The payload is put together from a head and between one and five members that fit. -/
structure Layout (payload : List U8) (generation : U32) (members : List RawMember) : Prop where
  bytes : payload = write32 generation ++ [BitVec.ofNat 8 members.length] ++
    members.flatMap RawMember.encoded
  count : 1 ≤ members.length ∧ members.length ≤ maxPeers
  fits : ∀ m ∈ members, m.Fits

end Sangtachi.Packet
