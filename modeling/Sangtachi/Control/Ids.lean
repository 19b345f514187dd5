import Mathlib.Algebra.Group.Nat.Defs
import Mathlib.Data.List.OfFn
import Sangtachi.Control.Values

/-! # Identifiers

Room ids, peer ids, nonces, tokens and names. A checked value is a subtype: it carries the
fact that the check accepted it. -/
namespace Sangtachi.Control

def ROOM_ID_ALPHABET : Text := "ABCDEFGHJKLMNPQRSTUVWXYZ23456789".toList

def ROOM_ID_LEN : ℕ := 6

def LOWER_HEX : Text := "0123456789abcdef".toList

def NAME_ALPHABET : Text :=
  "ABCDEFGHIJKLMNOPQRSTUVWXYZabcdefghijklmnopqrstuvwxyz0123456789_".toList

/-- A text over an alphabet is checked letter by letter. -/
instance (text alphabet : Text) : Decidable (∀ c ∈ text, c ∈ alphabet) := List.decidableBAll _ text

abbrev RoomId := { t : Text // t.length = ROOM_ID_LEN ∧ ∀ c ∈ t, c ∈ ROOM_ID_ALPHABET }

/-- 32 lower-case hexadecimal digits: a client nonce or a peer token. -/
abbrev Hex32 := { t : Text // t.length = 32 ∧ ∀ c ∈ t, c ∈ LOWER_HEX }

abbrev Name := { t : Text // (∀ c ∈ t, c ∈ NAME_ALPHABET) ∧ 1 ≤ t.length ∧ t.length ≤ MAX_NAME_LEN }

/-- A uint32. A peer of a room never has the id 0. -/
abbrev PeerId := Fin (2 ^ 32)

def normalizeRoomId (value : Option Json) : Except OpError RoomId :=
  match value with
  | some (.str text) =>
    if ¬ text.all (fun c => c.toNat < 128) then
      .error (badRequest "room_id 는 ASCII 만 받는다")
    else
      let upper := text.map Char.toUpper
      if hlen : upper.length = ROOM_ID_LEN then
        if hchars : ∀ c ∈ upper, c ∈ ROOM_ID_ALPHABET then
          .ok ⟨upper, hlen, hchars⟩
        else .error (badRequest "room_id 에 알파벳 밖의 글자가 있다")
      else .error (badRequest "room_id 는 6글자다")
  | _ => .error (badRequest "room_id 는 문자열이어야 한다")

/-- `_LOWER_HEX32.fullmatch`. -/
def lowerHex32 (value : Option Json) (message : String) (short : message.length ≤ 64 := by decide) :
    Except OpError Hex32 :=
  match value with
  | some (.str text) =>
    if h : text.length = 32 ∧ ∀ c ∈ text, c ∈ LOWER_HEX then .ok ⟨text, h⟩
    else .error (badRequest message short)
  | _ => .error (badRequest message short)

def checkClientNonce (value : Option Json) : Except OpError Hex32 :=
  lowerHex32 value "client_nonce 는 소문자 16진수 32자다"

def checkPeerToken (value : Option Json) : Except OpError Hex32 :=
  lowerHex32 value "peer_token 은 소문자 16진수 32자다"

def checkName (value : Option Json) : Except OpError Name :=
  match value with
  | some (.str text) =>
    if hchars : ∀ c ∈ text, c ∈ NAME_ALPHABET then
      if hlen : 1 ≤ text.length ∧ text.length ≤ MAX_NAME_LEN then .ok ⟨text, hchars, hlen⟩
      else .error (badRequest "name 은 1자 이상 16자 이하다")
    else .error (badRequest "name 에 허용 밖의 글자가 있다")
  | _ => .error (badRequest "name 은 문자열이어야 한다")

/-- A checked name is ASCII, so `lower` changes its capital letters only. -/
def nameKey (name : Name) : Text := name.1.map Char.toLower

/-- `new_room_id` from its six choices of a letter. -/
def newRoomId (choice : Fin ROOM_ID_LEN → Fin ROOM_ID_ALPHABET.length) : RoomId :=
  ⟨List.ofFn fun i => ROOM_ID_ALPHABET.get (choice i), by
    refine ⟨by simp, ?_⟩
    intro c hc
    obtain ⟨i, rfl⟩ := (List.mem_ofFn' _ _).mp hc
    exact List.get_mem _ _⟩

/-- `secrets.token_hex(16)` from its 32 half bytes. -/
def newPeerToken (digit : Fin 32 → Fin LOWER_HEX.length) : Hex32 :=
  ⟨List.ofFn fun i => LOWER_HEX.get (digit i), by
    refine ⟨by simp, ?_⟩
    intro c hc
    obtain ⟨i, rfl⟩ := (List.mem_ofFn' _ _).mp hc
    exact List.get_mem _ _⟩

end Sangtachi.Control
