import Sangtachi.Tunnel.RosterFormat

/-! # The roster payload in fixed arrays

A roster is kept in arrays of five members and sixteen name bytes, of which only the front has a
meaning. The decoder fills the arrays while it walks over the payload, and the encoder writes into
a buffer of its caller. -/
namespace Sangtachi.RosterBytes

open Sangtachi.BigEndian Sangtachi.Packet

/-- `nameLen` bytes of `name` have a meaning, and the rest is zero. -/
structure Member where
  peerId : U32
  virtualIp : U32
  connected : Bool
  name : Vector U8 maxNameLen
  nameLen : U8
  deriving DecidableEq

/-- `count` members have a meaning. -/
structure Roster where
  generation : U32
  members : Vector Member maxPeers
  count : U8
  deriving DecidableEq

def Member.blank : Member := ⟨0, 0, false, Vector.replicate maxNameLen 0, 0⟩

def Member.nameView (m : Member) : List U8 :=
  m.name.toList.take (if m.nameLen.toNat < maxNameLen then m.nameLen.toNat else maxNameLen)

/-- What the decoder has filled in so far. The flags are kept whole for their own check. -/
structure Reading where
  pos : ℕ
  members : Vector Member maxPeers
  rawFlags : Vector U8 maxPeers

def Reading.start : Reading :=
  ⟨rosterHeadSize, Vector.replicate maxPeers .blank, Vector.replicate maxPeers 0⟩

def readMember (payload : List U8) (r : Reading) (i : ℕ) : Option Reading :=
  let remaining := payload.length - r.pos
  if remaining < rosterMemberFixedSize then none
  else
    let nameLen := read8 payload (r.pos + 9)
    if nameLen.toNat < 1 ∨ maxNameLen < nameLen.toNat then none
    else if remaining - rosterMemberFixedSize < nameLen.toNat then none
    else
      let flags := read8 payload (r.pos + 8)
      let m : Member :=
        { peerId := read32 payload r.pos
          virtualIp := read32 payload (r.pos + 4)
          connected := flags &&& rosterFlagConnected ≠ 0
          nameLen := nameLen
          name := (List.range nameLen.toNat).foldl (fun (name : Vector U8 maxNameLen) k =>
            name.setIfInBounds k (read8 payload (r.pos + rosterMemberFixedSize + k)))
            (Vector.replicate maxNameLen 0) }
      some ⟨r.pos + rosterMemberFixedSize + nameLen.toNat, r.members.setIfInBounds i m,
        r.rawFlags.setIfInBounds i flags⟩

def decodeRoster (payload : List U8) (context : RosterContext) : Except PacketError Roster :=
  if !context.senderIsHost then .error .rosterDirection
  else if payload.length < rosterHeadSize then .error .typeLength
  else
    let generation := read32 payload 0
    let count := read8 payload 4
    if count.toNat < 1 ∨ maxPeers < count.toNat then .error .typeLength
    else
      match (List.range count.toNat).foldlM (readMember payload) .start with
      | none => .error .typeLength
      | some r =>
        if r.pos ≠ payload.length then .error .typeLength
        else if context.lastGeneration.any (generation < ·) then .error .rosterStale
        else if (List.range count.toNat).any fun i =>
            r.rawFlags.toList.getD i 0 &&& rosterFlagsReserved ≠ 0 then .error .rosterFlags
        else if (List.range count.toNat).any fun i =>
            !isValidName (r.members.toList.getD i .blank).nameView then .error .rosterName
        else .ok ⟨generation, r.members, count⟩

def put (out : List U8) (pos : ℕ) : List U8 → List U8
  | [] => out
  | b :: bytes => put (out.set pos b) (pos + 1) bytes

/-- The size of the whole payload, once every member has passed its check. -/
def encodedSize (roster : Roster) : Option ℕ :=
  (List.range roster.count.toNat).foldlM (fun total i =>
    let m := roster.members.toList.getD i .blank
    if maxNameLen < m.nameLen.toNat ∨ !isValidName m.nameView then none
    else some (total + (rosterMemberFixedSize + m.nameLen.toNat))) rosterHeadSize

def writeMember (m : Member) (out : List U8) (pos : ℕ) : List U8 :=
  let out := put out pos (write32 m.peerId)
  let out := put out (pos + 4) (write32 m.virtualIp)
  let out := put out (pos + 8) [if m.connected then rosterFlagConnected else 0]
  let out := put out (pos + 9) [m.nameLen]
  (List.range m.nameLen.toNat).foldl (fun out k =>
    put out (pos + rosterMemberFixedSize + k) [m.name.toList.getD k 0]) out

def encodeRoster (roster : Roster) (out : List U8) : ℕ × List U8 :=
  if roster.count.toNat < 1 ∨ maxPeers < roster.count.toNat then (0, out)
  else
    match encodedSize roster with
    | none => (0, out)
    | some total =>
      if out.length < total then (0, out)
      else
        let out := put out 0 (write32 roster.generation)
        let out := put out 4 [roster.count]
        let written := (List.range roster.count.toNat).foldl (fun (written : List U8 × ℕ) i =>
          let m := roster.members.toList.getD i .blank
          (writeMember m written.1 written.2,
            written.2 + (rosterMemberFixedSize + m.nameLen.toNat))) (out, rosterHeadSize)
        (total, written.1)

/-! ## What the arrays mean -/

def filled {α : Type} (n : ℕ) (l : List α) (blank : α) : Vector α n :=
  Vector.ofFn fun i => l.getD i blank

def Member.meaning (m : Member) : RosterMember := ⟨m.peerId, m.virtualIp, m.connected, m.nameView⟩

def Roster.used (roster : Roster) : List Member := roster.members.toList.take roster.count.toNat

def Roster.meaning (roster : Roster) : Packet.Roster :=
  ⟨roster.generation, roster.used.map Member.meaning⟩

/-- A name that fits its array and has the format of a display name. -/
def Member.Named (m : Member) : Prop :=
  m.nameLen.toNat ≤ maxNameLen ∧ isValidName m.nameView = true

structure Roster.Writable (roster : Roster) : Prop where
  count : 1 ≤ roster.count.toNat ∧ roster.count.toNat ≤ maxPeers
  named : ∀ m ∈ roster.used, m.Named

def slot (m : RawMember) : Member :=
  ⟨m.peerId, m.virtualIp, m.flags &&& rosterFlagConnected ≠ 0, filled maxNameLen m.name 0,
    BitVec.ofNat 8 m.name.length⟩

def Member.cleaned (m : Member) : Member := { m with name := filled maxNameLen m.nameView 0 }

def Roster.cleaned (roster : Roster) : Roster :=
  { roster with members := filled maxPeers (roster.used.map Member.cleaned) .blank }

variable {α : Type} {n : ℕ} {l : List α} {blank : α}

theorem filled_nil (blank : α) : filled n [] blank = Vector.replicate n blank := by
  apply Vector.ext
  intro i hi
  simp [filled]

theorem filled_snoc (n : ℕ) (l : List α) (blank x : α) :
    (filled n l blank).setIfInBounds l.length x = filled n (l ++ [x]) blank := by
  apply Vector.ext
  intro i hi
  rw [Vector.getElem_setIfInBounds]
  simp only [filled, Vector.getElem_ofFn, List.getD_eq_getElem?_getD, List.getElem?_append]
  by_cases hlt : i < l.length
  · rw [if_neg (by omega), if_pos hlt]
  · rw [if_neg hlt]
    by_cases heq : l.length = i
    · subst heq
      simp
    · rw [if_neg heq, List.getElem?_eq_none (by omega), List.getElem?_eq_none (by simp; omega)]

theorem filled_take (blank : α) (h : l.length ≤ n) :
    (filled n l blank).toList.take l.length = l := by
  apply List.ext_getElem
  · simp only [List.length_take, Vector.length_toList]
    omega
  · intro i hi hl
    simp [filled, hl]

theorem map_getD_range {k : ℕ} (h : k ≤ l.length) (d : α) :
    (List.range k).map (fun i => l.getD i d) = l.take k := by
  apply List.ext_getElem
  · simp only [List.length_map, List.length_range, List.length_take]
    omega
  · intro i hi hl
    have hlt : i < l.length := by
      simp only [List.length_take] at hl
      omega
    simp [List.getD_eq_getElem?_getD, hlt]

theorem range_foldl {σ : Type} {k : ℕ} (h : k ≤ l.length) (d : α) (f : σ → α → σ) (s : σ) :
    (List.range k).foldl (fun s i => f s (l.getD i d)) s = (l.take k).foldl f s := by
  rw [← map_getD_range h d, List.foldl_map]

theorem range_foldlM {σ : Type} {k : ℕ} (h : k ≤ l.length) (d : α) (f : σ → α → Option σ) (s : σ) :
    (List.range k).foldlM (fun s i => f s (l.getD i d)) s = (l.take k).foldlM f s := by
  rw [← map_getD_range h d, List.foldlM_map]

theorem range_any {k : ℕ} (h : k ≤ l.length) (d : α) (p : α → Bool) :
    ((List.range k).any fun i => p (l.getD i d)) = (l.take k).any p := by
  rw [← map_getD_range h d, List.any_map]
  rfl

theorem slot_nameView {m : RawMember} (h : m.name.length ≤ maxNameLen) :
    (slot m).nameView = m.name := by
  have hlen : (BitVec.ofNat 8 m.name.length).toNat = m.name.length := by
    rw [BitVec.toNat_ofNat]
    unfold maxNameLen at h
    omega
  have hcut : (if (BitVec.ofNat 8 m.name.length).toNat < maxNameLen then
      (BitVec.ofNat 8 m.name.length).toNat else maxNameLen) = m.name.length := by
    rw [hlen]
    split <;> omega
  unfold Member.nameView
  rw [show (slot m).nameLen = BitVec.ofNat 8 m.name.length from rfl, hcut]
  exact filled_take _ h

theorem slot_meaning {m : RawMember} (h : m.name.length ≤ maxNameLen) :
    (slot m).meaning = m.toMember := by
  unfold Member.meaning
  rw [slot_nameView h]
  rfl

/-! ## The decoder -/

theorem name_loop (payload : List U8) (pos : ℕ) :
    ∀ {k : ℕ}, k ≤ maxNameLen → pos + k ≤ payload.length →
      (List.range k).foldl (fun (name : Vector U8 maxNameLen) k =>
        name.setIfInBounds k (read8 payload (pos + k))) (Vector.replicate maxNameLen 0) =
      filled maxNameLen ((payload.drop pos).take k) 0
  | 0, _, _ => by
    rw [List.take_zero, filled_nil]
    rfl
  | k + 1, hk, hp => by
    have hlen : ((payload.drop pos).take k).length = k := by
      rw [List.length_take, List.length_drop]
      omega
    have hget : k < (payload.drop pos).length := by
      rw [List.length_drop]
      omega
    have hbyte : read8 payload (pos + k) = (payload.drop pos)[k] := by
      rw [← read8_drop, read8, List.getD_eq_getElem?_getD, List.getElem?_eq_getElem hget]
      rfl
    rw [List.range_succ, List.foldl_append, name_loop payload pos (by omega) (by omega),
      List.take_add_one,
      List.getElem?_eq_getElem hget]
    have hsnoc := filled_snoc maxNameLen ((payload.drop pos).take k) 0 (payload.drop pos)[k]
    rw [hlen] at hsnoc
    rw [← hbyte] at hsnoc ⊢
    exact hsnoc

structure Reading.Holds (r : Reading) (read : List RawMember) : Prop where
  members : r.members = filled maxPeers (read.map slot) .blank
  rawFlags : r.rawFlags = filled maxPeers (read.map RawMember.flags) 0

theorem readMember_spec (payload : List U8) {r : Reading} {members : List RawMember}
    (h : r.Holds members) :
    if HoldsMember (payload.drop r.pos) then
      ∃ r', readMember payload r members.length = some r' ∧
        r'.Holds (members ++ [frontMember (payload.drop r.pos)]) ∧
        r'.pos = r.pos + (rosterMemberFixedSize + nameLength (payload.drop r.pos)) ∧
        r'.pos ≤ payload.length
    else readMember payload r members.length = none := by
  have hname : nameLength (payload.drop r.pos) = (read8 payload (r.pos + 9)).toNat := by
    rw [nameLength, read8_drop]
  have hleft : (payload.drop r.pos).length = payload.length - r.pos := List.length_drop
  have hheld : HoldsMember (payload.drop r.pos) ↔ rosterMemberFixedSize ≤ payload.length - r.pos ∧
      (1 ≤ (read8 payload (r.pos + 9)).toNat ∧ (read8 payload (r.pos + 9)).toNat ≤ maxNameLen) ∧
      (read8 payload (r.pos + 9)).toNat ≤ payload.length - r.pos - rosterMemberFixedSize := by
    unfold HoldsMember
    rw [hname, hleft]
  unfold readMember
  rw [hname]
  by_cases hshort : payload.length - r.pos < rosterMemberFixedSize
  · rw [if_neg (mt hheld.mp (by omega)), if_pos hshort]
  by_cases hlen : (read8 payload (r.pos + 9)).toNat < 1 ∨
    maxNameLen < (read8 payload (r.pos + 9)).toNat
  · rw [if_neg (mt hheld.mp (by omega)), if_neg hshort, if_pos hlen]
  by_cases hend : payload.length - r.pos - rosterMemberFixedSize < (read8 payload (r.pos + 9)).toNat
  · rw [if_neg (mt hheld.mp (by omega)), if_neg hshort, if_neg hlen, if_pos hend]
  rw [if_pos (hheld.mpr (by omega)), if_neg hshort, if_neg hlen, if_neg hend]
  rw [not_or, not_lt, not_lt] at hlen
  refine ⟨_, rfl, ?_, Nat.add_assoc _ _ _, by simp only; omega⟩
  have hloop := name_loop payload (r.pos + rosterMemberFixedSize) hlen.2 (by omega)
  have hcopied :
    ((payload.drop r.pos).drop rosterMemberFixedSize).take (nameLength (payload.drop r.pos)) =
      (payload.drop (r.pos + rosterMemberFixedSize)).take (read8 payload (r.pos + 9)).toNat := by
    rw [List.drop_drop, hname]
  have hbyte : BitVec.ofNat 8 (frontMember (payload.drop r.pos)).name.length =
    read8 payload (r.pos + 9) := by
    have hlength : (frontMember (payload.drop r.pos)).name.length =
      (read8 payload (r.pos + 9)).toNat := by
      simp only [frontMember, hcopied, List.length_take, List.length_drop]
      omega
    rw [hlength, BitVec.ofNat_toNat]
    exact BitVec.setWidth_eq _
  have hslot : slot (frontMember (payload.drop r.pos)) =
      { peerId := read32 payload r.pos
        virtualIp := read32 payload (r.pos + 4)
        connected := read8 payload (r.pos + 8) &&& rosterFlagConnected ≠ 0
        nameLen := read8 payload (r.pos + 9)
        name := (List.range (read8 payload (r.pos + 9)).toNat).foldl
          (fun (name : Vector U8 maxNameLen) k =>
            name.setIfInBounds k (read8 payload (r.pos + rosterMemberFixedSize + k)))
          (Vector.replicate maxNameLen 0) } := by
    rw [hloop, ← hcopied, slot, hbyte]
    simp only [frontMember, read32_drop, read8_drop, Nat.add_zero]
  constructor
  · rw [← hslot, h.members, List.map_append]
    have hsnoc := filled_snoc maxPeers (members.map slot) .blank
      (slot (frontMember (payload.drop r.pos)))
    rwa [List.length_map] at hsnoc
  · have hflags : (frontMember (payload.drop r.pos)).flags = read8 payload (r.pos + 8) :=
      read8_drop _ _ _
    rw [h.rawFlags, List.map_append]
    have hsnoc := filled_snoc maxPeers (members.map RawMember.flags) 0
      (frontMember (payload.drop r.pos)).flags
    rw [List.length_map, hflags] at hsnoc
    rw [hsnoc, List.map_singleton, hflags]

theorem readMembers_loop (payload : List U8) (count : ℕ) :
    ∀ {r : Reading} {members : List RawMember}, r.Holds members → r.pos ≤ payload.length →
      match readMembers count (payload.drop r.pos) with
      | none => (List.range' members.length count).foldlM (readMember payload) r = none
      | some (more, tail) =>
        ∃ r', (List.range' members.length count).foldlM (readMember payload) r = some r' ∧
          r'.Holds (members ++ more) ∧ r'.pos ≤ payload.length ∧ payload.drop r'.pos = tail := by
  induction count with
  | zero =>
    intro r members h hpos
    exact ⟨r, rfl, by rwa [List.append_nil], hpos, rfl⟩
  | succ count ih =>
    intro r members h hpos
    have hfirst := readMember_spec payload h
    rw [readMembers_succ, List.range'_succ, List.foldlM_cons]
    by_cases hholds : HoldsMember (payload.drop r.pos)
    · rw [if_pos hholds] at hfirst ⊢
      obtain ⟨r', hread, hnext, hpos', hle⟩ := hfirst
      have hrest := ih hnext hle
      rw [List.length_append, List.length_singleton] at hrest
      rw [hread, List.drop_drop, ← hpos']
      cases hmore : readMembers count (payload.drop r'.pos) with
      | none =>
        rw [hmore] at hrest
        exact hrest
      | some found =>
        obtain ⟨more, tail⟩ := found
        rw [hmore] at hrest
        obtain ⟨r'', hloop, hall, hpos'', htail⟩ := hrest
        refine ⟨r'', hloop, ?_, hpos'', htail⟩
        rwa [List.append_assoc] at hall
    · rw [if_neg hholds] at hfirst ⊢
      rw [hfirst]
      rfl

theorem start_holds : Reading.start.Holds [] :=
  ⟨(filled_nil _).symm, (filled_nil _).symm⟩

theorem isValidName_of_fits {m : RawMember} (h : m.Fits) :
    isValidName m.name = m.name.all isNameByte := by
  obtain ⟨hpos, hmax⟩ := h
  cases hname : m.name with
  | nil =>
    rw [hname] at hpos
    cases hpos
  | cons c name =>
    rw [hname] at hmax
    unfold isValidName
    rw [decide_eq_true hmax]
    rfl

/-- The roster that the decoder fills in for a payload of these members. -/
def Roster.ofMembers (generation : U32) (members : List RawMember) : Roster :=
  ⟨generation, filled maxPeers (members.map slot) .blank, BitVec.ofNat 8 members.length⟩

theorem decodeRoster_unstructured {payload : List U8} (last : Option U32)
    (h : ¬ ∃ generation members, Layout payload generation members) :
    decodeRoster payload ⟨true, last⟩ = .error .typeLength := by
  unfold decodeRoster
  rw [if_neg (by simp)]
  by_cases hhead : payload.length < rosterHeadSize
  · rw [if_pos hhead]
  rw [if_neg hhead]
  dsimp only
  by_cases hcount : (read8 payload 4).toNat < 1 ∨ maxPeers < (read8 payload 4).toNat
  · rw [if_pos hcount]
  rw [if_neg hcount]
  rw [not_or, not_lt, not_lt] at hcount
  have hloop := readMembers_loop payload (read8 payload 4).toNat start_holds (not_lt.mp hhead)
  rw [List.length_nil, ← List.range_eq_range'] at hloop
  cases hread : readMembers (read8 payload 4).toNat (payload.drop rosterHeadSize) with
  | none =>
    rw [show Reading.start.pos = rosterHeadSize from rfl, hread] at hloop
    rw [hloop]
  | some found =>
    obtain ⟨members, tail⟩ := found
    rw [show Reading.start.pos = rosterHeadSize from rfl, hread] at hloop
    obtain ⟨r, hr, hheld, hle, htail⟩ := hloop
    rw [hr]
    dsimp only
    by_cases hend : r.pos = payload.length
    · -- the members end where the payload ends: this is a layout
      refine absurd ⟨read32 payload 0, members, ?_⟩ h
      obtain ⟨hlength, hfits, hbytes⟩ := readMembers_some.mp hread
      rw [hend, List.drop_length] at htail
      rw [← htail, List.append_nil] at hbytes
      unfold rosterHeadSize at hhead hbytes
      have hword := drop_read32 payload 0 (by omega)
      have hbyte := drop_read8 payload 4 (by omega)
      rw [List.drop_zero, hbyte, hbytes] at hword
      refine ⟨?_, by omega, hfits⟩
      have hcount8 : BitVec.ofNat 8 members.length = read8 payload 4 := by
        rw [hlength, BitVec.ofNat_toNat]
        exact BitVec.setWidth_eq _
      rw [hcount8, List.append_assoc]
      exact hword
    · rw [if_pos hend]

theorem decodeRoster_layout {payload : List U8} {generation : U32} {members : List RawMember}
    (h : Layout payload generation members) (last : Option U32) :
    decodeRoster payload ⟨true, last⟩ =
      if last.any (generation < ·) then .error .rosterStale
      else if members.any fun m => m.flags &&& rosterFlagsReserved ≠ 0 then .error .rosterFlags
      else if members.any fun m => !m.name.all isNameByte then .error .rosterName
      else .ok (.ofMembers generation members) := by
  obtain ⟨hbytes, hcount, hfits⟩ := h
  have hgeneration : read32 payload 0 = generation := by
    rw [hbytes]
    exact join32 _
  have hbyte : read8 payload 4 = BitVec.ofNat 8 members.length := by
    rw [hbytes]
    rfl
  have hcount8 : (read8 payload 4).toNat = members.length := by
    have hmax := hcount.2
    rw [hbyte, BitVec.toNat_ofNat]
    unfold maxPeers at hmax
    omega
  have hhead : ¬ payload.length < rosterHeadSize := by
    rw [hbytes, List.length_append]
    exact not_lt.mpr (Nat.le_add_right _ _)
  have hbody : payload.drop rosterHeadSize = members.flatMap RawMember.encoded := by
    rw [hbytes]
    rfl
  have hread : readMembers members.length (payload.drop rosterHeadSize) = some (members, []) :=
    readMembers_some.mpr ⟨rfl, hfits, by rw [hbody, List.append_nil]⟩
  have hloop := readMembers_loop payload members.length start_holds (not_lt.mp hhead)
  rw [List.length_nil, ← List.range_eq_range', show Reading.start.pos = rosterHeadSize from rfl,
    hread] at hloop
  obtain ⟨r, hr, hheld, hle, htail⟩ := hloop
  rw [List.nil_append] at hheld
  have hend : r.pos = payload.length := by
    rw [List.drop_eq_nil_iff] at htail
    omega
  have hmembers : r.members.toList.take members.length = members.map slot := by
    have htake := filled_take (l := members.map slot) (n := maxPeers) .blank
      (by rw [List.length_map]; exact hcount.2)
    rwa [List.length_map, ← hheld.members] at htake
  have hraw : r.rawFlags.toList.take members.length = members.map RawMember.flags := by
    have htake := filled_take (l := members.map RawMember.flags) (n := maxPeers) 0
      (by rw [List.length_map]; exact hcount.2)
    rwa [List.length_map, ← hheld.rawFlags] at htake
  have hflags : ((List.range members.length).any fun i =>
      decide (r.rawFlags.toList.getD i 0 &&& rosterFlagsReserved ≠ 0)) =
      members.any fun m => m.flags &&& rosterFlagsReserved ≠ 0 := by
    rw [range_any (by simpa using hcount.2) (0 : U8) fun flags =>
      decide (flags &&& rosterFlagsReserved ≠ 0),
      hraw, List.any_map]
    rfl
  have hnames : ((List.range members.length).any fun i =>
      !isValidName (r.members.toList.getD i .blank).nameView) =
      members.any fun m => !m.name.all isNameByte := by
    rw [range_any (by simpa using hcount.2) Member.blank fun m => !isValidName m.nameView,
      hmembers, List.any_map]
    rw [Bool.eq_iff_iff, List.any_eq_true, List.any_eq_true]
    apply exists_congr
    intro m
    apply and_congr_right
    intro hm
    simp only [Function.comp_apply, slot_nameView (hfits m hm).2, isValidName_of_fits (hfits m hm)]
  unfold decodeRoster
  rw [if_neg (by simp), if_neg hhead]
  simp only [hgeneration, hcount8, hr]
  rw [if_neg (by omega), if_neg (by simpa using hend), hflags, hnames, hheld.members, hbyte]
  rfl

/-! ## The encoder -/

theorem put_append (out : List U8) (pos : ℕ) (a b : List U8) :
    put out pos (a ++ b) = put (put out pos a) (pos + a.length) b := by
  induction a generalizing out pos with
  | nil => rfl
  | cons x a ih =>
    rw [List.cons_append, put, ih, put, List.length_cons, Nat.add_right_comm, ← Nat.add_assoc]

theorem put_eq (front rest bytes : List U8) (h : bytes.length ≤ rest.length) :
    put (front ++ rest) front.length bytes = front ++ bytes ++ rest.drop bytes.length := by
  induction bytes generalizing front rest with
  | nil => simp [put]
  | cons b bytes ih =>
    cases rest with
    | nil => simp at h
    | cons r rest =>
      have hset : (front ++ r :: rest).set front.length b = (front ++ [b]) ++ rest := by
        rw [List.set_append_right _ _ (le_refl _), Nat.sub_self, List.set_cons_zero,
          List.append_assoc]
        rfl
      have hnext := ih (front ++ [b]) rest (Nat.le_of_succ_le_succ h)
      rw [List.length_append, List.length_singleton] at hnext
      rw [put, hset, hnext, List.append_assoc front]
      rfl

theorem put_loop (out : List U8) (pos : ℕ) :
    ∀ {k : ℕ} {l : List U8}, k ≤ l.length →
      (List.range k).foldl (fun out k => put out (pos + k) [l.getD k 0]) out =
        put out pos (l.take k)
  | 0, l, _ => by simp [put]
  | k + 1, l, h => by
    have hlen : (l.take k).length = k := by
      rw [List.length_take]
      omega
    rw [List.range_succ, List.foldl_append, put_loop out pos (by omega), List.take_add_one,
      List.getElem?_eq_getElem (by omega), put_append, hlen]
    simp [List.getD_eq_getElem?_getD, show k < l.length by omega]

theorem writeMember_eq {m : Member} (h : m.Named) (out : List U8) (pos : ℕ) :
    writeMember m out pos = put out pos (encodeMember m.meaning) ∧
      (encodeMember m.meaning).length = rosterMemberFixedSize + m.nameLen.toNat := by
  obtain ⟨hlen, -⟩ := h
  have hview : m.nameView = m.name.toList.take m.nameLen.toNat := by
    unfold Member.nameView
    split
    · rfl
    · rw [show m.nameLen.toNat = maxNameLen by omega]
  have hlength : m.nameView.length = m.nameLen.toNat := by
    rw [hview, List.length_take, Vector.length_toList]
    omega
  have hbyte : BitVec.ofNat 8 m.meaning.name.length = m.nameLen := by
    rw [show m.meaning.name = m.nameView from rfl, hlength, BitVec.ofNat_toNat]
    exact BitVec.setWidth_eq _
  constructor
  · unfold writeMember encodeMember
    rw [hbyte, put_loop _ _ (by rw [Vector.length_toList]; exact hlen), ← hview]
    rw [put_append, put_append, put_append]
    rfl
  · rw [encodeMember_length, show m.meaning.name = m.nameView from rfl, hlength]

instance (m : Member) : Decidable m.Named := inferInstanceAs (Decidable (_ ∧ _))

theorem named_iff (m : Member) :
    m.Named ↔ ¬ (maxNameLen < m.nameLen.toNat ∨ (!isValidName m.nameView) = true) := by
  simp [Member.Named]

def Roster.body (roster : Roster) : List U8 := (roster.used.map Member.meaning).flatMap encodeMember

def Roster.encoding (roster : Roster) : List U8 :=
  write32 roster.generation ++ [roster.count] ++ roster.body

theorem used_length {roster : Roster} (h : roster.count.toNat ≤ maxPeers) :
    roster.count.toNat ≤ roster.members.toList.length := by
  rwa [Vector.length_toList]

theorem size_loop (members : List Member) (total : ℕ) :
    members.foldlM (fun total m =>
      if maxNameLen < m.nameLen.toNat ∨ !isValidName m.nameView then none
      else some (total + (rosterMemberFixedSize + m.nameLen.toNat))) total =
    if ∀ m ∈ members, m.Named then
      some (total + ((members.map Member.meaning).flatMap encodeMember).length) else none := by
  induction members generalizing total with
  | nil => simp
  | cons m members ih =>
    rw [List.foldlM_cons]
    by_cases hm : m.Named
    · obtain ⟨-, hlength⟩ := writeMember_eq hm [] 0
      rw [if_neg ((named_iff m).mp hm)]
      simp only [bind, Option.bind_some, ih, List.forall_mem_cons, hm, true_and, List.map_cons,
        List.flatMap_cons, List.length_append, hlength, Nat.add_assoc]
    · rw [if_pos (not_not.mp (mt (named_iff m).mpr hm)),
        if_neg fun hall => hm (hall m List.mem_cons_self)]
      rfl

theorem write_loop {members : List Member} (h : ∀ m ∈ members, m.Named) (out : List U8) (pos : ℕ) :
    (members.foldl (fun (written : List U8 × ℕ) m =>
      (writeMember m written.1 written.2, written.2 + (rosterMemberFixedSize + m.nameLen.toNat)))
      (out, pos)).1 = put out pos ((members.map Member.meaning).flatMap encodeMember) := by
  induction members generalizing out pos with
  | nil => rfl
  | cons m members ih =>
    obtain ⟨hwrite, hlength⟩ := writeMember_eq (h m List.mem_cons_self) out pos
    rw [List.foldl_cons, ih fun x hx => h x (List.mem_cons_of_mem _ hx), List.map_cons,
      List.flatMap_cons, put_append, hlength, hwrite]

theorem encodeRoster_spec (roster : Roster) (out : List U8) :
    (roster.Writable → roster.encoding.length ≤ out.length →
      encodeRoster roster out =
        (roster.encoding.length, roster.encoding ++ out.drop roster.encoding.length)) ∧
    (¬ (roster.Writable ∧ roster.encoding.length ≤ out.length) →
      encodeRoster roster out = (0, out)) := by
  by_cases hcount : roster.count.toNat < 1 ∨ maxPeers < roster.count.toNat
  · refine ⟨fun h => absurd hcount (by have := h.count; omega), fun _ => ?_⟩
    unfold encodeRoster
    rw [if_pos hcount]
  have hcounted : 1 ≤ roster.count.toNat ∧ roster.count.toNat ≤ maxPeers := by omega
  have hused := used_length hcounted.2
  have hsize : encodedSize roster = if ∀ m ∈ roster.used, m.Named then
      some (rosterHeadSize + roster.body.length) else none :=
    (range_foldlM hused Member.blank _ _).trans (size_loop _ _)
  have htotal : roster.encoding.length = rosterHeadSize + roster.body.length := by
    unfold Roster.encoding
    rw [List.length_append]
    rfl
  unfold encodeRoster
  rw [if_neg hcount, hsize]
  by_cases hnamed : ∀ m ∈ roster.used, m.Named
  · rw [if_pos hnamed]
    dsimp only
    by_cases hroom : out.length < rosterHeadSize + roster.body.length
    · rw [if_pos hroom]
      exact ⟨fun _ hfits => absurd hroom (by omega), fun _ => rfl⟩
    rw [if_neg hroom]
    refine ⟨fun _ hfits => ?_, fun hnot => absurd ⟨⟨hcounted, hnamed⟩, by omega⟩ hnot⟩
    have hloop := (congrArg Prod.fst (range_foldl hused Member.blank
      (fun (written : List U8 × ℕ) m => (writeMember m written.1 written.2,
        written.2 + (rosterMemberFixedSize + m.nameLen.toNat)))
      (put (put out 0 (write32 roster.generation)) 4 [roster.count], rosterHeadSize))).trans
      (write_loop hnamed _ _)
    have hput : put (put (put out 0 (write32 roster.generation)) 4 [roster.count]) rosterHeadSize
        roster.body = put out 0 roster.encoding := by
      unfold Roster.encoding
      rw [put_append, put_append]
      rfl
    have hall := put_eq [] out roster.encoding hfits
    rw [htotal]
    rw [htotal, List.nil_append, List.nil_append, List.length_nil, ← hput] at hall
    exact Prod.ext rfl (hloop.trans hall)
  · rw [if_neg hnamed]
    exact ⟨fun h => absurd h.named hnamed, fun _ => rfl⟩

/-! ## There and back -/

theorem used_ofMembers (generation : U32) {members : List RawMember}
    (h : members.length ≤ maxPeers) :
    (Roster.ofMembers generation members).count.toNat = members.length ∧
      (Roster.ofMembers generation members).used = members.map slot := by
  have hcount : (BitVec.ofNat 8 members.length).toNat = members.length := by
    rw [BitVec.toNat_ofNat]
    unfold maxPeers at h
    omega
  have htake := filled_take (n := maxPeers) (l := members.map slot) .blank
    (by rwa [List.length_map])
  rw [List.length_map] at htake
  refine ⟨hcount, ?_⟩
  unfold Roster.used Roster.ofMembers
  rw [hcount, htake]

theorem meaning_ofMembers (generation : U32) {members : List RawMember}
    (h : members.length ≤ maxPeers) (hfits : ∀ m ∈ members, m.Fits) :
    (Roster.ofMembers generation members).meaning =
      ⟨generation, members.map RawMember.toMember⟩ := by
  unfold Roster.meaning
  rw [(used_ofMembers generation h).2, List.map_map]
  congr 1
  exact List.map_congr_left fun m hm => slot_meaning (hfits m hm).2

theorem flags_known (flags : U8) (h : flags &&& rosterFlagsReserved = 0) :
    (if flags &&& rosterFlagConnected ≠ 0 then rosterFlagConnected else 0) = flags := by
  revert flags
  decide

theorem encodeMember_toMember {m : RawMember} (h : m.flags &&& rosterFlagsReserved = 0) :
    encodeMember m.toMember = m.encoded := by
  have hflags := flags_known m.flags h
  unfold encodeMember RawMember.encoded RawMember.toMember
  simp only [decide_eq_true_eq]
  rw [hflags]

theorem encoding_ofMembers {payload : List U8} {generation : U32} {members : List RawMember}
    (h : Layout payload generation members)
    (hflags : ∀ m ∈ members, m.flags &&& rosterFlagsReserved = 0)
    (hnames : ∀ m ∈ members, m.name.all isNameByte = true) :
    (Roster.ofMembers generation members).Writable ∧
      (Roster.ofMembers generation members).encoding = payload := by
  obtain ⟨hbytes, hcount, hfits⟩ := h
  obtain ⟨hlength, hused⟩ := used_ofMembers generation hcount.2
  refine ⟨⟨by rwa [hlength], fun m hm => ?_⟩, ?_⟩
  · rw [hused, List.mem_map] at hm
    obtain ⟨raw, hraw, rfl⟩ := hm
    refine ⟨(hfits raw hraw).length_byte.le.trans (hfits raw hraw).2, ?_⟩
    rw [slot_nameView (hfits raw hraw).2, isValidName_of_fits (hfits raw hraw)]
    exact hnames raw hraw
  · have hbody : (Roster.ofMembers generation members).body =
      members.flatMap RawMember.encoded := by
      have hmeaning := congrArg Packet.Roster.members (meaning_ofMembers generation hcount.2 hfits)
      unfold Roster.body
      rw [show List.map Member.meaning _ = _ from hmeaning, List.flatMap_map]
      exact List.flatMap_congr fun m hm => encodeMember_toMember (hflags m hm)
    unfold Roster.encoding
    rw [hbody, hbytes]
    rfl

def Roster.raws (roster : Roster) : List RawMember := roster.used.map fun m => m.meaning.raw

theorem Roster.Writable.layout {roster : Roster} (h : roster.Writable) :
    Layout roster.encoding roster.generation roster.raws := by
  have hlength : roster.raws.length = roster.count.toNat := by
    unfold Roster.raws Roster.used
    rw [List.length_map, List.length_take]
    have := used_length h.count.2
    omega
  refine ⟨?_, by rw [hlength]; exact h.count, fun raw hraw => ?_⟩
  · have hcount : BitVec.ofNat 8 roster.raws.length = roster.count := by
      rw [hlength, BitVec.ofNat_toNat]
      exact BitVec.setWidth_eq _
    unfold Roster.encoding Roster.body
    rw [hcount]
    simp only [Roster.raws, List.flatMap_map]
    rfl
  · obtain ⟨m, hm, rfl⟩ := List.mem_map.mp hraw
    exact length_of_isValidName (h.named m hm).2

theorem slot_raw {m : Member} (h : m.Named) : slot m.meaning.raw = m.cleaned := by
  have hread := flag_read m.connected
  have hlength : BitVec.ofNat 8 m.nameView.length = m.nameLen := by
    have hlen := (writeMember_eq h [] 0).2
    rw [encodeMember_length] at hlen
    rw [show m.nameView.length = m.nameLen.toNat from Nat.add_left_cancel hlen, BitVec.ofNat_toNat]
    exact BitVec.setWidth_eq _
  unfold slot Member.cleaned RosterMember.raw Member.meaning
  simp only [hread, hlength]

theorem ofMembers_raws {roster : Roster} (h : roster.Writable) :
    Roster.ofMembers roster.generation roster.raws = roster.cleaned := by
  have hlength : BitVec.ofNat 8 roster.raws.length = roster.count := by
    have hcount := used_length h.count.2
    unfold Roster.raws Roster.used
    rw [List.length_map, List.length_take, min_eq_left hcount, BitVec.ofNat_toNat]
    exact BitVec.setWidth_eq _
  unfold Roster.ofMembers Roster.cleaned
  rw [hlength]
  congr 2
  unfold Roster.raws
  rw [List.map_map]
  exact List.map_congr_left fun m hm => slot_raw (h.named m hm)

theorem meaning_cleaned {roster : Roster} (h : roster.Writable) :
    roster.cleaned.meaning = roster.meaning := by
  have hlayout := h.layout
  rw [← ofMembers_raws h, meaning_ofMembers _ hlayout.count.2 hlayout.fits]
  unfold Roster.meaning Roster.raws
  rw [List.map_map]
  congr 1
  exact List.map_congr_left fun m _ => raw_toMember m.meaning

theorem round_trip {roster : Roster} {out : List U8} (h : roster.Writable)
    (hroom : roster.encoding.length ≤ out.length) {last : Option U32}
    (hlast : ∀ g, last = some g → g ≤ roster.generation) :
    decodeRoster ((encodeRoster roster out).2.take (encodeRoster roster out).1) ⟨true, last⟩ =
      .ok roster.cleaned := by
  have hstale : ¬ last.any (roster.generation < ·) = true := by
    cases last with
    | none => simp
    | some g => simpa using hlast g rfl
  have hflags :
    ¬ (roster.raws.any fun m => decide (m.flags &&& rosterFlagsReserved ≠ 0)) = true := by
    rw [Bool.not_eq_true, List.any_eq_false]
    intro raw hraw
    obtain ⟨m, -, rfl⟩ := List.mem_map.mp hraw
    have hzero : m.meaning.raw.flags &&& rosterFlagsReserved = 0 := flag_reserved m.connected
    simp [hzero]
  have hnames : ¬ (roster.raws.any fun m => !m.name.all isNameByte) = true := by
    rw [Bool.not_eq_true, List.any_eq_false]
    intro raw hraw
    have hvalid := isValidName_of_fits (h.layout.fits raw hraw)
    obtain ⟨m, hm, rfl⟩ := List.mem_map.mp hraw
    rw [← hvalid, show m.meaning.raw.name = m.nameView from rfl, (h.named m hm).2]
    decide
  rw [(encodeRoster_spec roster out).1 h hroom, List.take_left, decodeRoster_layout h.layout,
    if_neg hstale, if_neg hflags, if_neg hnames, ofMembers_raws h]

theorem accepted_iff {payload : List U8} {context : RosterContext} {roster : Roster} :
    decodeRoster payload context = .ok roster ↔
      context.senderIsHost = true ∧ ∃ generation members, Layout payload generation members ∧
        (∀ last, context.lastGeneration = some last → last ≤ generation) ∧
        (∀ m ∈ members, m.flags &&& rosterFlagsReserved = 0) ∧
        (∀ m ∈ members, m.name.all isNameByte = true) ∧ roster = .ofMembers generation members := by
  obtain ⟨host, last⟩ := context
  cases host with
  | false => simp [decodeRoster]
  | true =>
    simp only [true_and]
    constructor
    · intro h
      by_cases hlayout : ∃ generation members, Layout payload generation members
      · obtain ⟨generation, members, hlayout⟩ := hlayout
        rw [decodeRoster_layout hlayout] at h
        split_ifs at h with hstale hflags hnames
        refine ⟨generation, members, hlayout, ?_, ?_, ?_, (Except.ok.inj h).symm⟩
        · rintro g rfl
          simpa using hstale
        · intro m hm
          by_contra hbad
          exact hflags (List.any_eq_true.mpr ⟨m, hm, decide_eq_true hbad⟩)
        · intro m hm
          by_contra hbad
          exact hnames (List.any_eq_true.mpr ⟨m, hm, by simpa using hbad⟩)
      · rw [decodeRoster_unstructured last hlayout] at h
        cases h
    · rintro ⟨generation, members, hlayout, hlast, hflags, hnames, rfl⟩
      rw [decodeRoster_layout hlayout, if_neg, if_neg, if_neg]
      · rw [Bool.not_eq_true, List.any_eq_false]
        intro m hm
        rw [hnames m hm]
        decide
      · rw [Bool.not_eq_true, List.any_eq_false]
        intro m hm
        simpa using hflags m hm
      · cases last with
        | none => simp
        | some g => simpa using hlast g rfl

/-- The codec of the roster payload. What is written is read back; what is accepted is written as
the same bytes; the checks fail in their order; and the encoder writes all or nothing. -/
theorem roster_codec :
    (∀ (roster : Roster) (out : List U8) (last : Option U32), roster.Writable →
      roster.encoding.length ≤ out.length → (∀ g, last = some g → g ≤ roster.generation) →
      decodeRoster ((encodeRoster roster out).2.take (encodeRoster roster out).1) ⟨true, last⟩ =
        .ok roster.cleaned ∧ roster.cleaned.meaning = roster.meaning) ∧
    (∀ (payload : List U8) (context : RosterContext) (roster : Roster) (out : List U8),
      decodeRoster payload context = .ok roster → payload.length ≤ out.length →
      encodeRoster roster out = (payload.length, payload ++ out.drop payload.length)) ∧
    (∀ (payload : List U8) (context : RosterContext),
      ((∃ roster, decodeRoster payload context = .ok roster) ↔
        context.senderIsHost = true ∧ ∃ generation members, Layout payload generation members ∧
          (∀ last, context.lastGeneration = some last → last ≤ generation) ∧
          (∀ m ∈ members, m.flags &&& rosterFlagsReserved = 0) ∧
          ∀ m ∈ members, m.name.all isNameByte = true) ∧
      (context.senderIsHost = false → decodeRoster payload context = .error .rosterDirection) ∧
      (context.senderIsHost = true → (¬ ∃ generation members, Layout payload generation members) →
        decodeRoster payload context = .error .typeLength) ∧
      ∀ generation members, context.senderIsHost = true → Layout payload generation members →
        decodeRoster payload context =
          if context.lastGeneration.any (generation < ·) then .error .rosterStale
          else if members.any fun m => m.flags &&& rosterFlagsReserved ≠ 0 then .error .rosterFlags
          else if members.any fun m => !m.name.all isNameByte then .error .rosterName
          else .ok (.ofMembers generation members)) ∧
    ∀ (roster : Roster) (out : List U8),
      (roster.Writable ∧ roster.encoding.length ≤ out.length ∧ encodeRoster roster out =
        (roster.encoding.length, roster.encoding ++ out.drop roster.encoding.length)) ∨
      (¬ (roster.Writable ∧ roster.encoding.length ≤ out.length) ∧
        encodeRoster roster out = (0, out)) := by
  refine ⟨?_, ?_, ?_, ?_⟩
  · intro roster out last h hroom hlast
    exact ⟨round_trip h hroom hlast, meaning_cleaned h⟩
  · intro payload context roster out h hroom
    obtain ⟨-, generation, members, hlayout, -, hflags, hnames, rfl⟩ := accepted_iff.mp h
    obtain ⟨hwritable, hsame⟩ := encoding_ofMembers hlayout hflags hnames
    have hwrite := (encodeRoster_spec _ out).1 hwritable (by rwa [hsame])
    rwa [hsame] at hwrite
  · intro payload context
    refine ⟨?_, ?_, ?_, ?_⟩
    · constructor
      · rintro ⟨roster, h⟩
        obtain ⟨hhost, generation, members, hlayout, hlast, hflags, hnames, -⟩ := accepted_iff.mp h
        exact ⟨hhost, generation, members, hlayout, hlast, hflags, hnames⟩
      · rintro ⟨hhost, generation, members, hlayout, hlast, hflags, hnames⟩
        exact ⟨_,
          accepted_iff.mpr ⟨hhost, generation, members, hlayout, hlast, hflags, hnames, rfl⟩⟩
    · intro hhost
      simp [decodeRoster, hhost]
    · obtain ⟨host, last⟩ := context
      rintro rfl hnone
      exact decodeRoster_unstructured last hnone
    · obtain ⟨host, last⟩ := context
      rintro generation members rfl hlayout
      exact decodeRoster_layout hlayout last
  · intro roster out
    by_cases h : roster.Writable ∧ roster.encoding.length ≤ out.length
    · exact .inl ⟨h.1, h.2, (encodeRoster_spec roster out).1 h.1 h.2⟩
    · exact .inr ⟨h, (encodeRoster_spec roster out).2 h⟩

/-- A host and a guest; bytes are left over behind both names and in the unused slots. -/
def sampleRoster : Roster :=
  ⟨7, #v[⟨1, 0x0A000001, true, filled maxNameLen [0x61, 0x62, 0x63] 0x78, 2⟩,
    ⟨2, 0x0A000002, false, filled maxNameLen [0x5F] 0x79, 1⟩,
    ⟨9, 9, true, filled maxNameLen [] 9, 9⟩,
    .blank, .blank], 2⟩

theorem sampleRoster_round_trip :
    decodeRoster ((encodeRoster sampleRoster (List.replicate 40 0)).2.take
      (encodeRoster sampleRoster (List.replicate 40 0)).1) ⟨true, some 7⟩ =
      .ok sampleRoster.cleaned :=
  (roster_codec.1 sampleRoster (List.replicate 40 0) (some 7) ⟨by decide, by decide⟩ (by decide)
    (by simp [sampleRoster])).1

end Sangtachi.RosterBytes
