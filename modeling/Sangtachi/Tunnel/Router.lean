import Sangtachi.Tunnel.Packet
import Mathlib.Data.Fintype.Basic

/-! # The routing table

A fixed array of slots, one for each last octet of a virtual address. A slot holds the number of
the session object its pointer refers to. -/
namespace Sangtachi.Tunnel

open Sangtachi.BigEndian Sangtachi.Packet

/-- Session objects are numbered in the order they are made; a number is never used again. -/
abbrev SessionId := ℕ

abbrev Slot := Fin (maxPeers + 1)

def virtualNetwork : U32 := 0x0A640000
def virtualBroadcast : U32 := 0x0A6400FF
def multicastNetwork : U32 := 0xE0000000
def multicastMask : U32 := 0xF0000000
def limitedBroadcast : U32 := 0xFFFFFFFF

def isNotUnicast (destination : U32) : Bool :=
  destination &&& multicastMask = multicastNetwork ∨ destination = limitedBroadcast ∨
    destination = virtualBroadcast

def octet (virtualIp : U32) : ℕ := (virtualIp &&& 0xFF).toNat

/-- First step of a lookup: inside the virtual network, with a last octet from 1 to `maxPeers`. -/
def routeIndex (virtualIp : U32) : Option Slot :=
  if virtualIp &&& 0xFFFFFF00 ≠ virtualNetwork then none
  else if h : octet virtualIp < 1 ∨ maxPeers < octet virtualIp then none
  else some ⟨octet virtualIp, by omega⟩

structure Router where
  slots : Slot → Option SessionId := fun _ => none

def Router.assign (r : Router) (virtualIp : U32) (session : SessionId) : Bool × Router :=
  match routeIndex virtualIp with
  | none => (false, r)
  | some slot =>
    if (r.slots slot).isSome then (false, r)
    else (true, ⟨Function.update r.slots slot (some session)⟩)

def Router.release (r : Router) (session : SessionId) : Router :=
  ⟨fun slot => if r.slots slot = some session then none else r.slots slot⟩

def Router.lookup (r : Router) (virtualIp : U32) : Option SessionId :=
  match routeIndex virtualIp with
  | none => none
  | some slot => r.slots slot

theorem routeIndex_some {virtualIp : U32} {slot : Slot} (h : routeIndex virtualIp = some slot) :
    virtualIp &&& 0xFFFFFF00 = virtualNetwork ∧ octet virtualIp = slot ∧ 1 ≤ octet virtualIp := by
  unfold routeIndex at h
  split_ifs at h with hnet hoctet
  have hslot := congrArg Fin.val (Option.some.inj h)
  dsimp only at hslot
  refine ⟨not_not.mp hnet, hslot, ?_⟩
  omega

theorem routeIndex_ne_zero {virtualIp : U32} {slot : Slot} (h : routeIndex virtualIp = some slot) :
    slot ≠ 0 := by
  obtain ⟨-, hslot, hpos⟩ := routeIndex_some h
  rintro rfl
  rw [hslot] at hpos
  exact absurd hpos (by decide)

theorem routeIndex_inj {a b : U32} {slot : Slot} (ha : routeIndex a = some slot)
    (hb : routeIndex b = some slot) : a = b := by
  obtain ⟨hanet, haoctet, -⟩ := routeIndex_some ha
  obtain ⟨hbnet, hboctet, -⟩ := routeIndex_some hb
  have join : ∀ v : U32, v = (v &&& 0xFFFFFF00) ||| (v &&& 0xFF) := by
    intro v
    rw [← BitVec.and_or_distrib_left]
    have hall : (0xFFFFFF00 : U32) ||| 0xFF = BitVec.allOnes 32 := by decide
    rw [hall, BitVec.and_allOnes]
  have hoctet : a &&& 0xFF = b &&& 0xFF := BitVec.eq_of_toNat_eq (haoctet.trans hboctet.symm)
  calc a = (a &&& 0xFFFFFF00) ||| (a &&& 0xFF) := join a
    _ = (b &&& 0xFFFFFF00) ||| (b &&& 0xFF) := by rw [hanet, hbnet, hoctet]
    _ = b := (join b).symm

@[simp] theorem release_slots (r : Router) (session : SessionId) (slot : Slot) :
    (r.release session).slots slot = if r.slots slot = some session then
    none else r.slots slot := rfl

theorem lookup_some {r : Router} {virtualIp : U32} {session : SessionId} :
    r.lookup virtualIp = some session ↔
      ∃ slot, routeIndex virtualIp = some slot ∧ r.slots slot = some session := by
  unfold Router.lookup
  cases routeIndex virtualIp with
  | none => simp
  | some slot => simp

end Sangtachi.Tunnel
