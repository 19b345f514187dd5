import Sangtachi.Core.Lines
import Sangtachi.ControlClient.Json

/-! # Responses of the control server

Where the response ends in the bytes that have come in, and the value it carries. -/
namespace Sangtachi.Http

open Sangtachi.BigEndian (U8)
open Sangtachi.Json (Bytes Value isDigit maxBodyBytes)
open Sangtachi.Lines (find)

def maxHeaderBytes : ℕ := 2048

def cr : U8 := 0x0D
def lf : U8 := 0x0A
def blank : U8 := 0x20
def tab : U8 := 0x09
def colon : U8 := 0x3A

def crlf : Bytes := [cr, lf]
def headEnd : Bytes := [cr, lf, cr, lf]

inductive ResponseError where
  | none | headerIncomplete | headerTooLarge | badStatusLine | badHeaderLine | transferEncoding
  | missingContentLength | duplicateContentLength | badContentLength | bodyTooLarge | bodyIncomplete
  | bodyNotJson | bodyNotObject
  deriving DecidableEq, Repr

inductive FrameState where
  | needMore | complete | invalid
  deriving DecidableEq, Repr

structure Frame where
  state : FrameState := .needMore
  error : ResponseError := .none
  headSize : ℕ := 0
  bodySize : ℕ := 0
  needed : ℕ := 0
  deriving DecidableEq, Repr

def invalid (error : ResponseError) : Frame := { state := .invalid, error := error }

def toLowerAscii (c : U8) : U8 := if 0x41 ≤ c ∧ c ≤ 0x5A then c - 0x41 + 0x61 else c

def equalsIgnoreCase (a lower : Bytes) : Bool := a.map toLowerAscii == lower

/-- `content-length` -/
def contentLengthName : Bytes :=
  [0x63, 0x6F, 0x6E, 0x74, 0x65, 0x6E, 0x74, 0x2D, 0x6C, 0x65, 0x6E, 0x67, 0x74, 0x68]

/-- `transfer-encoding` -/
def transferEncodingName : Bytes :=
  [0x74, 0x72, 0x61, 0x6E, 0x73, 0x66, 0x65, 0x72, 0x2D, 0x65, 0x6E, 0x63, 0x6F, 0x64,
    0x69, 0x6E, 0x67]

/-- `HTTP/1.1` and a blank. -/
def statusPrefix : Bytes := [0x48, 0x54, 0x54, 0x50, 0x2F, 0x31, 0x2E, 0x31, blank]

/-- Three digits behind the prefix, and then a blank or nothing. -/
def statusLineOk (line : Bytes) : Bool :=
  if line.take statusPrefix.length ≠ statusPrefix then false
  else
    match line.drop statusPrefix.length with
    | a :: b :: c :: rest =>
      isDigit a && isDigit b && isDigit c && (rest.isEmpty || rest.head? == some blank)
    | _ => false

structure LengthValue where
  syntaxOk : Bool := false
  overLimit : Bool := false
  value : ℕ := 0
  deriving DecidableEq, Repr

/-- The digits are counted until the value is over the limit. -/
def readDigits (out : LengthValue) : Bytes → LengthValue
  | [] => { out with syntaxOk := true }
  | c :: rest =>
    if !isDigit c then out
    else if out.overLimit then readDigits out rest
    else
      let value := out.value * 10 + (c.toNat - 0x30)
      readDigits { out with value := value, overLimit := decide (maxBodyBytes < value) } rest

def parseLength (raw : Bytes) : LengthValue :=
  let v := if raw.head? = some blank then raw.tail else raw
  if v.isEmpty then {} else readDigits {} v

/-- Every CR and LF is part of a CRLF. -/
def lineEndsOk : Bytes → Bool
  | [] => true
  | [c] => c != cr && c != lf
  | c :: d :: rest =>
    if c = cr then d == lf && lineEndsOk rest
    else if c = lf then false
    else lineEndsOk (d :: rest)

/-- What the header lines so far say about the body. -/
structure Headers where
  contentLengthCount : ℕ := 0
  contentLengthRaw : Bytes := []
  transferEncoding : Bool := false
  deriving DecidableEq, Repr

def readHeader (headers : Headers) (line : Bytes) : Option Headers :=
  if line.head? = none ∨ line.head? = some blank ∨ line.head? = some tab then none
  else
    match find [colon] line with
    | none => none
    | some 0 => none
    | some place =>
      let name := line.take place
      if name.any fun c => c == blank || c == tab then none
      else if equalsIgnoreCase name contentLengthName then
        some { headers with
          contentLengthCount := headers.contentLengthCount + 1
          contentLengthRaw := line.drop (place + 1) }
      else if equalsIgnoreCase name transferEncodingName then
        some { headers with transferEncoding := true }
      else some headers

/-- The header lines in what is left of the head, for as many rounds as it has bytes. -/
def readHeaders (headers : Headers) : ℕ → Bytes → Option Headers
  | 0, _ => some headers
  | rounds + 1, lines =>
    if lines.isEmpty then some headers
    else
      let stop := (find crlf lines).getD lines.length
      match readHeader headers (lines.take stop) with
      | none => none
      | some headers => readHeaders headers rounds (lines.drop (stop + crlf.length))

/-- The length of the body, from the lines of the head. -/
def judgeHead (lines : Bytes) : Except ResponseError ℕ :=
  if !lineEndsOk lines then .error .badHeaderLine
  else
    let lineEnd := (find crlf lines).getD lines.length
    if !statusLineOk (lines.take lineEnd) then .error .badStatusLine
    else
      match readHeaders {} lines.length (lines.drop (lineEnd + crlf.length)) with
      | none => .error .badHeaderLine
      | some headers =>
        if headers.transferEncoding then .error .transferEncoding
        else if headers.contentLengthCount = 0 then .error .missingContentLength
        else if 1 < headers.contentLengthCount then .error .duplicateContentLength
        else
          let length := parseLength headers.contentLengthRaw
          if !length.syntaxOk then .error .badContentLength
          else if length.overLimit then .error .bodyTooLarge
          else .ok length.value

def frameResponse (received : Bytes) : Frame :=
  match find headEnd (received.take maxHeaderBytes) with
  | none => if maxHeaderBytes ≤ received.length then invalid .headerTooLarge else {}
  | some last =>
    match judgeHead (received.take last) with
    | .error error => invalid error
    | .ok bodySize =>
      let headSize := last + headEnd.length
      if headSize + bodySize ≤ received.length then
        { state := .complete, headSize := headSize, bodySize := bodySize }
      else
        { state := .needMore, headSize := headSize, bodySize := bodySize
          needed := headSize + bodySize - received.length }

def parseResponse (received : Bytes) : Except ResponseError Value :=
  let frame := frameResponse received
  match frame.state with
  | .invalid => .error frame.error
  | .needMore => .error (if frame.headSize = 0 then .headerIncomplete else .bodyIncomplete)
  | .complete =>
    match Json.parse ((received.drop frame.headSize).take frame.bodySize) with
    | .error _ => .error .bodyNotJson
    | .ok value =>
      match value with
      | .object members => .ok (.object members)
      | _ => .error .bodyNotObject

end Sangtachi.Http
