import Sangtachi.Control.Ids

/-! # Candidates

The shape check and the sanitation of the candidates that a peer registers. -/
namespace Sangtachi.Control

inductive CandidateKind where
  | local
  | reflexive
  deriving DecidableEq, Repr

def CandidateKind.text : CandidateKind → Text
  | .local => "local".toList
  | .reflexive => "reflexive".toList

structure Candidate where
  ip : Text
  port : ℕ
  kind : CandidateKind
  deriving DecidableEq

abbrev Octets := ℕ × ℕ × ℕ × ℕ

def isDigit (c : Char) : Bool := '0'.toNat ≤ c.toNat && c.toNat ≤ '9'.toNat

def digitsValue (part : Text) : ℕ := part.foldl (fun n c => n * 10 + (c.toNat - '0'.toNat)) 0

/-- One octet: one to three digits, no leading zero, at most 255. -/
def parseOctet (part : Text) : Option ℕ :=
  if part.length = 0 ∨ 3 < part.length ∨ ¬ part.all isDigit then none
  else if 1 < part.length ∧ part.head? = some '0' then none
  else if 255 < digitsValue part then none
  else some (digitsValue part)

def parseIpv4 (text : Text) : Option Octets :=
  match text.splitOn '.' with
  | [a, b, c, d] => do return (← parseOctet a, ← parseOctet b, ← parseOctet c, ← parseOctet d)
  | _ => none

/-- One element of the list: a shape error spoils the whole request. -/
def checkShapeItem (item : Json) : Except OpError (Octets × Candidate) :=
  match item with
  | .obj members =>
    match field members "ip".toList with
    | some (.str ip) =>
      match parseIpv4 ip with
      | none => .error (badRequest "ip 는 점 십진 IPv4 다")
      | some octets =>
        match field members "port".toList with
        | some (.int port) =>
          if 0 ≤ port ∧ port ≤ 65535 then
            match field members "kind".toList with
            | some (.str kind) =>
              if kind = CandidateKind.local.text then .ok (octets, ⟨ip, port.toNat, .local⟩)
              else if kind = CandidateKind.reflexive.text then
                .ok (octets, ⟨ip, port.toNat, .reflexive⟩)
              else .error (badRequest "kind 는 local 이나 reflexive 다")
            | _ => .error (badRequest "kind 는 local 이나 reflexive 다")
          else .error (badRequest "port 는 1~65535 정수다")
        | _ => .error (badRequest "port 는 1~65535 정수다")
    | _ => .error (badRequest "ip 는 점 십진 IPv4 다")
  | _ => .error (badRequest "후보는 객체다")

def checkShape (raw : Option Json) : Except OpError (List (Octets × Candidate)) :=
  match raw with
  | some (.arr items) =>
    if MAX_CANDIDATES < items.length then .error (badRequest "후보가 너무 많다")
    else items.mapM checkShapeItem
  | _ => .error (badRequest "candidates 는 배열이다")

def sanitationReject (octets : Octets) (port : ℕ) : Bool :=
  octets.1 == 0 || (224 ≤ octets.1 && octets.1 ≤ 239) || 240 ≤ octets.1 || octets.1 == 127 ||
    port == 0

/-- One pass over the checked list; `seen` holds the endpoints stored so far. -/
def sanitizeLoop : List (Octets × Candidate) → List (Octets × ℕ) → List Candidate × ℕ
  | [], _ => ([], 0)
  | (octets, c) :: rest, seen =>
    if sanitationReject octets c.port then
      let (stored, rejected) := sanitizeLoop rest seen
      (stored, rejected + 1)
    else if (octets, c.port) ∈ seen then sanitizeLoop rest seen
    else
      let (stored, rejected) := sanitizeLoop rest ((octets, c.port) :: seen)
      (c :: stored, rejected)

def sanitizeCandidates (raw : Option Json) : Except OpError (List Candidate × ℕ) := do
  let checked ← checkShape raw
  let (stored, rejected) := sanitizeLoop checked []
  if stored = [] then .error (badRequest "저장할 후보가 없다")
  else return (stored, rejected)

end Sangtachi.Control
