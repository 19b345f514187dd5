import Mathlib.Data.Int.Notation
import Mathlib.Data.List.Basic

/-! # Values of the control plane

Texts, parsed JSON, and the errors of the control server. -/
namespace Sangtachi.Control

abbrev Text := List Char

/-- The order of texts by code point, which is that of their UTF-8 bytes. -/
def textLe : Text → Text → Bool
  | [], _ => true
  | _ :: _, [] => false
  | a :: as, b :: bs => a.toNat < b.toNat || (a == b && textLe as bs)

/-- A parsed JSON value. `other` is a number that is not an integer; nothing reads its value. -/
inductive Json where
  | null
  | bool (value : Bool)
  | int (value : ℤ)
  | other
  | str (text : Text)
  | arr (items : List Json)
  | obj (members : List (Text × Json))

/-- `dict.get`. -/
def field (members : List (Text × Json)) (name : Text) : Option Json :=
  (members.find? fun member => member.1 == name).map Prod.snd

def MAX_PEERS : ℕ := 5
def ROOM_LEASE_S : ℤ := 120
def JOIN_REGISTER_GRACE_S : ℤ := 90
def STORAGE_GRACE_S : ℤ := 86400
def PUNCH_DELAY_MS : ℤ := 1000
def MAX_CANDIDATES : ℕ := 8
def MAX_NAME_LEN : ℕ := 16
def MAX_BODY_BYTES : ℕ := 4096
def MAX_HEADER_BYTES : ℕ := 2048
def MAX_ROOM_ID_ATTEMPTS : ℕ := 4
def MAX_PEER_ID_ATTEMPTS : ℕ := 4

inductive ErrorCode where
  | badRequest
  | methodNotAllowed
  | unknownOp
  | lengthRequired
  | tooLarge
  | roomNotFound
  | roomExpired
  | roomFull
  | nameTaken
  | unauthorized
  | rateLimited
  | internal
  | unavailable
  deriving DecidableEq, Repr

def ErrorCode.text : ErrorCode → String
  | .badRequest => "bad_request"
  | .methodNotAllowed => "method_not_allowed"
  | .unknownOp => "unknown_op"
  | .lengthRequired => "length_required"
  | .tooLarge => "too_large"
  | .roomNotFound => "room_not_found"
  | .roomExpired => "room_expired"
  | .roomFull => "room_full"
  | .nameTaken => "name_taken"
  | .unauthorized => "unauthorized"
  | .rateLimited => "rate_limited"
  | .internal => "internal"
  | .unavailable => "unavailable"

/-- `STATUS`, and the two statuses of `too_large`. -/
def ErrorCode.statuses : ErrorCode → List ℕ
  | .badRequest => [400]
  | .methodNotAllowed => [405]
  | .unknownOp => [404]
  | .lengthRequired => [411]
  | .tooLarge => [413, 431]
  | .roomNotFound => [404]
  | .roomExpired => [410]
  | .roomFull => [409]
  | .nameTaken => [409]
  | .unauthorized => [403]
  | .rateLimited => [429]
  | .internal => [500]
  | .unavailable => [503]

/-- The messages are fixed texts of the source, none of which is long. -/
structure OpError where
  code : ErrorCode
  status : ℕ
  message : String
  status_mem : status ∈ code.statuses
  message_short : message.length ≤ 64
  deriving DecidableEq

def opError (code : ErrorCode) (message : String) (status : ℕ)
    (h : status ∈ code.statuses := by decide)
    (short : message.length ≤ 64 := by decide) : OpError :=
  ⟨code, status, message, h, short⟩

def badRequest (message : String) (short : message.length ≤ 64 := by decide) : OpError :=
  opError .badRequest message 400 (by decide) short

theorem internal_short : "internal".length ≤ 64 := by decide

def internalError (message : String) (short : message.length ≤ 64 := by decide) : OpError :=
  opError .internal message 500 (by decide) short

def unauthorized : OpError := opError .unauthorized "unauthorized" 403

def roomNotFound : OpError := opError .roomNotFound "room_not_found" 404

def roomExpired : OpError := opError .roomExpired "room_expired" 410

def roomFull : OpError := opError .roomFull "room_full" 409

def nameTaken : OpError := opError .nameTaken "name_taken" 409

def unknownOp : OpError := opError .unknownOp "unknown_op" 404

end Sangtachi.Control
