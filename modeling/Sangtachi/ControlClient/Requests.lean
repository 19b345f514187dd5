import Sangtachi.ControlClient.Http
import Sangtachi.Lobby.Requests

/-! # What the client sends

The bodies of the operations as JSON, and the request around a body. -/
namespace Sangtachi.Requests

open Sangtachi.BigEndian
open Sangtachi.Json (Value Int64Value serialize maxBodyBytes)
open Sangtachi.Http (crlf colon)
open Sangtachi.Lobby
  (Bytes ascii decimal Op opName Body PeerToken Candidate CandidateKind formatIpv4)

/-! ## Bodies -/

theorem int64_fits {n : ℕ} (h : n < 2 ^ 32) :
    -9223372036854775808 ≤ (n : ℤ) ∧ (n : ℤ) ≤ 9223372036854775807 := by
  omega

/-- `Value::integer` of an unsigned number of 32 bits. -/
def unsigned (n : U32) : Value := .integer ⟨n.toNat, int64_fits n.isLt⟩

/-- The members put into an object one after the other. -/
def insertAll (body : Value) (members : List (Bytes × Value)) : Value :=
  members.foldl (fun body m => (body.insert m.1 m.2).1) body

def authFields (roomId : Bytes) (peerId : U32) (token : PeerToken) : Value :=
  insertAll (.object [])
    [(ascii "room_id", .string roomId), (ascii "peer_id", unsigned peerId),
      (ascii "peer_token", .string token.hex)]

def peerIdArray (ids : List U32) : Value :=
  ids.foldl (fun arr id => (arr.pushBack (unsigned id)).1) (.array [])

def kindToken : CandidateKind → Bytes
  | .local => ascii "local"
  | .reflexive => ascii "reflexive"

def candidateItem (c : Candidate) : Value :=
  insertAll (.object [])
    [(ascii "ip", .string (formatIpv4 c.endpoint.address)),
      (ascii "port", unsigned (c.endpoint.port.setWidth 32)),
      (ascii "kind", .string (kindToken c.kind))]

def candidateArray (candidates : List Candidate) : Value :=
  candidates.foldl (fun list c => (list.pushBack (candidateItem c)).1) (.array [])

/-- The JSON of a body. The text of a request that is over is empty, and has none. -/
def bodyValue : Body → Option Value
  | .empty => none
  | .createRoom nonce name =>
    some (insertAll
      (.object []) [(ascii "client_nonce", .string nonce.hex), (ascii "name", .string name)])
  | .joinRoom roomId nonce name =>
    some (insertAll (.object [])
      [(ascii "room_id", .string roomId), (ascii "client_nonce", .string nonce.hex),
        (ascii "name", .string name)])
  | .registerCandidate roomId peerId token candidates =>
    some (insertAll
      (authFields roomId peerId token) [(ascii "candidates", candidateArray candidates)])
  | .getPeers roomId peerId token => some (authFields roomId peerId token)
  | .hostReport roomId peerId token departed confirm =>
    some (insertAll (authFields roomId peerId token)
      [(ascii "departed", peerIdArray departed), (ascii "confirm", peerIdArray confirm)])

def bodyText (body : Body) : Option Bytes :=
  match bodyValue body with
  | none => some []
  | some value => serialize value

/-! ## The request -/

def maxHostNameBytes : ℕ := 253
def maxHostHeaderBytes : ℕ := 253 + 1 + 5

def isVisibleAscii (c : U8) : Bool := 0x21 ≤ c && c ≤ 0x7E

def hostHeader (host : Bytes) (port : U16) : Option Bytes :=
  if host = [] ∨ maxHostNameBytes < host.length ∨ port = 0 then none
  else if host.any fun c => !isVisibleAscii c || c == colon then none
  else some (host ++ [colon] ++ decimal port.toNat)

def buildRequest (host : Bytes) (op : Op) (body : Bytes) : Option Bytes :=
  if host = [] ∨ maxHostHeaderBytes < host.length then none
  else if host.any fun c => !isVisibleAscii c then none
  else if maxBodyBytes < body.length then none
  else
    some (ascii "POST /v1/" ++ ascii (opName op) ++ ascii " HTTP/1.1" ++ crlf ++
      ascii "Host: " ++ host ++ crlf ++
      ascii "Content-Type: application/json" ++ crlf ++
      ascii "Content-Length: " ++ decimal body.length ++ crlf ++
      ascii "Connection: close" ++ crlf ++ crlf ++ body)

end Sangtachi.Requests
