import Sangtachi.Core.Lines
import Sangtachi.Control.Http

/-! # Requests

From the bytes of a connection to the operation and its JSON object. The reader hands over what has
come in so far, in pieces of any size; what `json.loads` makes of a text is a parameter. -/
namespace Sangtachi.Control.Http

open Sangtachi.Lines (find split)

abbrev Bytes := List UInt8

instance : LawfulBEq Bytes := inferInstance

def ascii (text : String) : Bytes := text.toList.map fun c => UInt8.ofNat c.toNat

def OPS : List String :=
  ["create_room", "join_room", "register_candidate", "get_peers", "host_report"]

def PATHS : List (Bytes × Text) := OPS.map fun op => (ascii "/v1/" ++ ascii op, op.toList)

def TABLE_HEADERS : List Bytes :=
  [ascii "host", ascii "content-type", ascii "content-length", ascii "connection",
    ascii "transfer-encoding"]

def CR : UInt8 := 13
def LF : UInt8 := 10
def SP : UInt8 := 32
def TAB : UInt8 := 9
def COLON : UInt8 := 58

def CRLF : Bytes := [CR, LF]
def HEAD_END : Bytes := [CR, LF, CR, LF]

/-! ## The reader -/

/-- The bytes that the peer has still to deliver, whether it closes behind them, and how many bytes
each read finds. -/
structure Reader where
  rest : Bytes
  eof : Bool
  pieces : ℕ → ℕ

/-- How a request is not returned. The reader waits for ever when nothing more comes in. -/
inductive Stop where
  | refused (error : ParseError)
  | closed
  | waiting
  deriving DecidableEq

def Reader.read (r : Reader) (n : ℕ) : Except Stop (Bytes × Reader) :=
  if n = 0 then .ok ([], r)
  else if r.rest = [] then if r.eof then .ok ([], r) else .error .waiting
  else
    let taken := max 1 (min (r.pieces 0) (min n r.rest.length))
    .ok
      (r.rest.take taken, { r with rest := r.rest.drop taken, pieces := fun i => r.pieces (i + 1) })

/-- `readexactly`, with an incomplete read turned into `Closed`. -/
def Reader.readExactly (r : Reader) (n : ℕ) : Except Stop Bytes :=
  if n ≤ r.rest.length then .ok (r.rest.take n)
  else if r.eof then .error .closed
  else .error .waiting

/-! ## The head -/

/-- What `_read_head` returns: the head, the bytes read behind it, and whether it is too long. -/
structure Head where
  head : Bytes
  rest : Bytes
  tooLong : Bool
  deriving DecidableEq

/-- Each round reads at least one byte. -/
def readHead : ℕ → Bytes → Reader → Except Stop (Head × Reader)
  | 0, _, _ => .error .waiting
  | rounds + 1, buf, r =>
    match find HEAD_END buf with
    | some last => .ok (⟨buf.take (last + 4), buf.drop (last + 4), false⟩, r)
    | none =>
      if MAX_HEADER_BYTES ≤ buf.length then .ok (⟨buf, [], true⟩, r)
      else
        match r.read (MAX_HEADER_BYTES - buf.length) with
        | .error stop => .error stop
        | .ok (chunk, r) => if chunk = [] then .error .closed else readHead rounds (buf ++ chunk) r

/-- `[!-~]` -/
def isVisible (c : UInt8) : Bool := 33 ≤ c && c ≤ 126

/-- The method and the target of a line that matches `_REQUEST_LINE`. -/
def matchRequestLine (line : Bytes) : Option (Bytes × Bytes) :=
  let method := line.takeWhile isVisible
  match line.dropWhile isVisible with
  | [] => none
  | c :: rest =>
    let target := rest.takeWhile isVisible
    if method ≠ [] ∧ c = SP ∧ target ≠ [] ∧ rest.dropWhile isVisible = ascii " HTTP/1.1" then
      some (method, target)
    else none

def checkMethod (method : Bytes) : Except ParseError Unit :=
  if method ≠ ascii "POST" then .error .methodNotAllowed else .ok ()

def checkPath (target : Bytes) : Except ParseError Text :=
  match PATHS.lookup target with
  | none => .error .unknownOp
  | some op => .ok op

def checkRequestLine (line : Bytes) : Except ParseError Text :=
  match matchRequestLine line with
  | none => .error .requestLine
  | some (method, target) =>
    if target.head? ≠ some 47 ∨ target.getLast? = some 47 ∨ 37 ∈ target then .error .requestLine
    else
      match checkMethod method with
      | .error e => .error e
      | .ok () => checkPath target

/-- `bytes.lower` -/
def lower (name : Bytes) : Bytes := name.map fun c => if 65 ≤ c ∧ c ≤ 90 then c + 32 else c

/-- `line.partition(b":")`, for a line with a colon. -/
def partitionColon (line : Bytes) : Option (Bytes × Bytes) :=
  match find [COLON] line with
  | none => none
  | some place => some (line.take place, line.drop (place + 1))

/-- The headers of the table that have been seen, with their values. -/
abbrev Seen := List (Bytes × Bytes)

def parseHeader (seen : Seen) (line : Bytes) : Except ParseError Seen :=
  if line.head? = some SP ∨ line.head? = some TAB then .error .obsFold
  else
    match partitionColon line with
    | none => .error .headerLine
    | some (name, value) =>
      if SP ∈ name ∨ TAB ∈ name then .error .headerNameSpace
      else if lower name ∈ TABLE_HEADERS then
        if lower name ∈ seen.map Prod.fst then .error .duplicateHeader
        else .ok (seen ++ [(lower name, value)])
      else .ok seen

def parseHeaders (seen : Seen) : List Bytes → Except ParseError Seen
  | [] => .ok seen
  | line :: lines =>
    match parseHeader seen line with
    | .error e => .error e
    | .ok seen => parseHeaders seen lines

def isDigit (c : UInt8) : Bool := 48 ≤ c && c ≤ 57

/-- The value is counted until it is over the limit. -/
def countDigits (n : ℕ) : Bytes → ℕ
  | [] => n
  | d :: rest =>
    let n := n * 10 + (d.toNat - 48)
    if MAX_BODY_BYTES < n then n else countDigits n rest

def parseLength (raw : Bytes) : Except ParseError ℕ :=
  let value := if raw.head? = some SP then raw.tail else raw
  if value = [] ∨ ¬ value.all isDigit then .error .contentLength else .ok (countDigits 0 value)

/-! ## The body -/

/-- What `json.loads` has read before it calls the hooks. An object is its pairs, and `NaN` and the
infinities are constants. -/
inductive Parsed where
  | null
  | bool (value : Bool)
  | int (value : ℤ)
  | other
  | constant
  | str (text : Text)
  | arr (items : List Parsed)
  | obj (pairs : List (Text × Parsed))

def objectNoDup (pairs : List (Text × Json)) : Option Json :=
  if (pairs.map Prod.fst).dedup.length ≠ pairs.length then none else some (.obj pairs)

/-- The value that the hooks make, or the error that one of them raises. -/
def hooked : Parsed → Option Json
  | .null => some .null
  | .bool value => some (.bool value)
  | .int value => some (.int value)
  | .other => some .other
  | .constant => none
  | .str text => some (.str text)
  | .arr items => (hookedItems items).map .arr
  | .obj pairs => (hookedPairs pairs).bind objectNoDup
where
  hookedItems : List Parsed → Option (List Json)
    | [] => some []
    | item :: items =>
      match hooked item, hookedItems items with
      | some value, some values => some (value :: values)
      | _, _ => none
  hookedPairs : List (Text × Parsed) → Option (List (Text × Json))
    | [] => some []
    | (key, item) :: pairs =>
      match hooked item, hookedPairs pairs with
      | some value, some members => some ((key, value) :: members)
      | _, _ => none

def decodeUtf8 (body : Bytes) : Option Text := (String.fromUTF8? body.toByteArray).map String.toList

section
variable (loads : Text → Option Parsed)

def parseBody (body : Bytes) : Except ParseError Json :=
  match (decodeUtf8 body).bind loads with
  | none => .error .body
  | some parsed =>
    match hooked parsed with
    | none => .error .body
    | some (.obj members) => .ok (.obj members)
    | some _ => .error .body

/-- What is decided on the head: the operation and the length of the body. -/
def judgeHead (head : Head) : Except ParseError (Text × ℕ) :=
  match find CRLF head.head with
  | none => .error .headerTooLarge
  | some lineEnd =>
    match checkRequestLine (head.head.take lineEnd) with
    | .error e => .error e
    | .ok op =>
      if head.tooLong then .error .headerTooLarge
      else
        match parseHeaders [] (split CRLF (head.head.take (head.head.length - 4))).tail with
        | .error e => .error e
        | .ok headers =>
          if (headers.lookup (ascii "transfer-encoding")).isSome then .error .transferEncoding
          else
            match headers.lookup (ascii "content-length") with
            | none => .error .lengthRequired
            | some raw =>
              match parseLength raw with
              | .error e => .error e
              | .ok length =>
                if MAX_BODY_BYTES < length then .error .bodyTooLarge else .ok (op, length)

def readRequest (r : Reader) : Except Stop Service.Request :=
  match readHead (MAX_HEADER_BYTES + 1) [] r with
  | .error stop => .error stop
  | .ok (head, r) =>
    match judgeHead head with
    | .error e => .error (.refused e)
    | .ok (op, length) =>
      let body := head.rest.take length
      let read : Except Stop Bytes :=
        if body.length < length then
          match r.readExactly (length - body.length) with
          | .error stop => .error stop
          | .ok more => .ok (body ++ more)
        else .ok body
      match read with
      | .error stop => .error stop
      | .ok body =>
        match parseBody loads body with
        | .error e => .error (.refused e)
        | .ok value => .ok ⟨op, value⟩

end

end Sangtachi.Control.Http
