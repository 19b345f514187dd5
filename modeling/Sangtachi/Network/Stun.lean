import Sangtachi.Core.BigEndian
import Sangtachi.Peer.Session

/-! # STUN messages

The binding request and the parser of the responses to it. An access outside the buffer and a walk
that is cut off are outcomes of their own, so that their absence can be stated. -/
namespace Sangtachi.Stun

open Sangtachi.BigEndian
open Sangtachi.Peer (Endpoint)

def stunCookie : U32 := 0x2112A442
def stunHeaderSize : ℕ := 20
def attrHeaderSize : ℕ := 4
def mappedIpv4ValueSize : ℕ := 8
def errorCodePrefixSize : ℕ := 4
def attrXorMappedAddress : U16 := 0x0020
def attrErrorCode : U16 := 0x0009
def addressFamilyIpv4 : U8 := 0x01

abbrev TransactionId := Vector U8 12

inductive StunMessageType where
  | bindingRequest | bindingSuccessResponse | bindingErrorResponse
  deriving DecidableEq, Repr

def StunMessageType.value : StunMessageType → U16
  | .bindingRequest => 0x0001
  | .bindingSuccessResponse => 0x0101
  | .bindingErrorResponse => 0x0111

inductive StunParseError where
  | tooShort | notStun | badCookie | transactionMismatch | unknownType | lengthNotAligned
  | lengthMismatch | attributeTruncated | mappedAddressFamily | mappedAddressMalformed
  | missingMappedAddress | duplicateMappedAddress
  deriving DecidableEq, Repr

structure StunResponse where
  type : StunMessageType
  mapped : Option Endpoint
  errorCode : Option U16
  deriving DecidableEq, Repr

/-- How a parse ends without a response. -/
inductive Halt where
  | outside -- an access outside the buffer
  | unfinished -- more rounds of the walk than were allowed
  | failure (error : StunParseError)
  deriving DecidableEq, Repr

/-! ## Reading -/

def byteAt (bytes : List U8) (offset : ℕ) : Except Halt U8 :=
  match bytes[offset]? with
  | some b => .ok b
  | none => .error .outside

def readU16 (bytes : List U8) (offset : ℕ) : Except Halt U16 := do
  let high ← byteAt bytes offset
  let low ← byteAt bytes (offset + 1)
  return (high.setWidth 16 <<< 8) ||| low.setWidth 16

def readU32 (bytes : List U8) (offset : ℕ) : Except Halt U32 := do
  let b0 ← byteAt bytes offset
  let b1 ← byteAt bytes (offset + 1)
  let b2 ← byteAt bytes (offset + 2)
  let b3 ← byteAt bytes (offset + 3)
  return (b0.setWidth 32 <<< 24) ||| (b1.setWidth 32 <<< 16) |||
    (b2.setWidth 32 <<< 8) ||| b3.setWidth 32

def subspan (bytes : List U8) (offset count : ℕ) : Except Halt (List U8) :=
  if offset + count ≤ bytes.length then .ok ((bytes.drop offset).take count) else .error .outside

def hasStunLeadingBits (datagram : List U8) : Except Halt Bool := do
  return (← byteAt datagram 0) &&& 0xC0 = 0x00

def hasStunCookie (datagram : List U8) : Except Halt Bool := do
  return (← readU32 datagram 4) = stunCookie

def readTransactionId (datagram : List U8) : Except Halt TransactionId :=
  (List.range 12).foldlM (fun (id : TransactionId) i => do
    return id.setIfInBounds i (← byteAt datagram (8 + i))) (Vector.replicate 12 0)

/-- The length of a value with its padding, in the 64 bits of `size_t`. -/
def paddedSize (valueLength : U16) : ℕ := ((valueLength.setWidth 64 + 3#64) &&& ~~~3#64).toNat

def decodeMappedAddress (value : List U8) : Except Halt Endpoint := do
  if value.length < 2 then
    throw (.failure .mappedAddressMalformed)
  if (← byteAt value 1) ≠ addressFamilyIpv4 then
    throw (.failure .mappedAddressFamily)
  if value.length ≠ mappedIpv4ValueSize then
    throw (.failure .mappedAddressMalformed)
  let cookieHigh : U16 := (stunCookie >>> 16).setWidth 16
  let port := (← readU16 value 2) ^^^ cookieHigh
  let address := (← readU32 value 4) ^^^ stunCookie
  return ⟨address, port⟩

def decodeErrorCode (value : List U8) : Except Halt (Option U16) := do
  if value.length < errorCodePrefixSize then
    return none
  let errorClass := (← byteAt value 2) &&& 0x07
  let number ← byteAt value 3
  if errorClass < 3 ∨ 6 < errorClass ∨ 99 < number then
    return none
  return some (errorClass.setWidth 16 * 100 + number.setWidth 16)

/-! ## Messages -/

def buildBindingRequest (transactionId : TransactionId) : List U8 :=
  write16 StunMessageType.bindingRequest.value ++ write16 0 ++ write32 stunCookie ++
    transactionId.toList

def peekTransactionId (datagram : List U8) : Except Halt (Option TransactionId) := do
  if datagram.length < stunHeaderSize then
    return none
  if !(← hasStunLeadingBits datagram) || !(← hasStunCookie datagram) then
    return none
  return some (← readTransactionId datagram)

/-- The variables of the walk over the attributes. -/
structure Walk where
  mapped : Option Endpoint
  errorCode : Option U16
  sawMapped : Bool
  duplicateMapped : Bool
  sawErrorCode : Bool
  deriving DecidableEq, Repr

def Walk.start : Walk := ⟨none, none, false, false, false⟩

def Walk.attribute (isSuccess isError : Bool) (w : Walk) (attrType : U16) (value : List U8) :
    Except Halt Walk :=
  if isSuccess ∧ attrType = attrXorMappedAddress ∧ w.sawMapped then
    .ok { w with duplicateMapped := true }
  else if isSuccess ∧ attrType = attrXorMappedAddress then do
    let mapped ← decodeMappedAddress value
    return { w with sawMapped := true, mapped := some mapped }
  else if isError ∧ attrType = attrErrorCode ∧ !w.sawErrorCode then do
    let code ← decodeErrorCode value
    return { w with sawErrorCode := true, errorCode := code }
  else .ok w

/-- The loop over the attributes. `short` is what the check of a header that is cut off leaves with.
-/
def walk (short : Halt) (datagram : List U8) (isSuccess isError : Bool) :
    ℕ → ℕ → Walk → Except Halt Walk
  | 0, _, _ => .error .unfinished
  | rounds + 1, offset, w =>
    if datagram.length ≤ offset then .ok w
    else
      let remaining := datagram.length - offset
      if remaining < attrHeaderSize then .error short
      else do
        let attrType ← readU16 datagram offset
        let attrLength ← readU16 datagram (offset + 2)
        let padded := paddedSize attrLength
        if remaining - attrHeaderSize < padded then .error (.failure .attributeTruncated)
        else do
          let value ← subspan datagram (offset + attrHeaderSize) attrLength.toNat
          let w ← w.attribute isSuccess isError attrType value
          walk short datagram isSuccess isError rounds (offset + (attrHeaderSize + padded)) w

def finish (isSuccess : Bool) (w : Walk) : Except Halt StunResponse :=
  if isSuccess && w.mapped.isNone then .error (.failure .missingMappedAddress)
  else if w.duplicateMapped then .error (.failure .duplicateMappedAddress)
  else .ok
    ⟨if isSuccess then .bindingSuccessResponse else .bindingErrorResponse, w.mapped, w.errorCode⟩

/-- The part of `parse_binding_response` behind the check of the type. -/
def parseLengthAndAttributes (short : Halt) (rounds : ℕ) (datagram : List U8)
    (isSuccess isError : Bool) :
    Except Halt StunResponse := do
  let declared ← readU16 datagram 2
  if declared &&& 0x03 ≠ 0 then .error (.failure .lengthNotAligned)
  else if stunHeaderSize + declared.toNat ≠ datagram.length then .error (.failure .lengthMismatch)
  else do
    let w ← walk short datagram isSuccess isError rounds stunHeaderSize .start
    finish isSuccess w

/-- `parse_binding_response` with another way out of the check that never fails. -/
def parseBindingResponseWith (short : Halt) (rounds : ℕ) (datagram : List U8)
    (expected : TransactionId) :
    Except Halt StunResponse :=
  if datagram.length < stunHeaderSize then .error (.failure .tooShort)
  else do
    let leading ← hasStunLeadingBits datagram
    if !leading then .error (.failure .notStun)
    else do
      let cookie ← hasStunCookie datagram
      if !cookie then .error (.failure .badCookie)
      else do
        let id ← readTransactionId datagram
        if id ≠ expected then .error (.failure .transactionMismatch)
        else do
          let rawType ← readU16 datagram 0
          let isSuccess : Bool := rawType = StunMessageType.bindingSuccessResponse.value
          let isError : Bool := rawType = StunMessageType.bindingErrorResponse.value
          if !isSuccess && !isError then .error (.failure .unknownType)
          else parseLengthAndAttributes short rounds datagram isSuccess isError

/-- In at most so many rounds of the walk. -/
def parseBindingResponse (rounds : ℕ) (datagram : List U8) (expected : TransactionId) :
    Except Halt StunResponse :=
  parseBindingResponseWith (.failure .attributeTruncated) rounds datagram expected

end Sangtachi.Stun
