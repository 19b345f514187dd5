import Sangtachi.ControlClient.Http
import Sangtachi.ControlClient.Hygiene

/-! # What the client reads from a response

The envelope, the fields of each operation and the replies made of them. The rules that a body has
to keep are stated on the JSON value, and the decoders read exactly the bodies that keep them. -/
namespace Sangtachi.Responses

open Sangtachi.BigEndian Sangtachi.Network
open Sangtachi.Packet (isNameByte isValidName maxNameLen maxPeers)
open Sangtachi.Json (Value Int64Value)
open Sangtachi.Http (parseResponse)
open Sangtachi.Lobby
  (Bytes ascii maxOthers maxCandidates Candidate CandidateKind Outcome Failure Reply Issued
  Registered PeerView Peers HostReport PeerToken OwnSubnet transportFailure isLowerHex32
    isRoomIdExact sanitizeReceivedCandidates
  formatIpv4)
open Sangtachi.Hygiene (Clean sanitized_clean)

/-! ## The envelope -/

structure Envelope where
  outcome : Outcome
  failure : Failure
  deriving DecidableEq, Repr

/-- The codes of an error. What is not in the table is a definite error. -/
def codes : List (Bytes × Failure) :=
  [(ascii "bad_request", .badRequest), (ascii "method_not_allowed", .methodNotAllowed),
    (ascii "unknown_op", .unknownOp), (ascii "length_required", .lengthRequired),
    (ascii "too_large", .tooLarge),
    (ascii "room_not_found", .roomNotFound), (ascii "room_expired", .roomExpired),
    (ascii "room_full", .roomFull),
    (ascii "name_taken", .nameTaken), (ascii "unauthorized", .unauthorized),
    (ascii "rate_limited", .rateLimited),
    (ascii "internal", .internal), (ascii "unavailable", .unavailable)]

def classifyEnvelope (body : Value) : Envelope :=
  match (body.find (ascii "ok")).bind Value.asBool with
  | none => ⟨.transient, .transport⟩
  | some true => ⟨.success, .none⟩
  | some false =>
    match (body.find (ascii "error")).bind Value.asString with
    | none => ⟨.transient, .transport⟩
    | some code =>
      match codes.lookup code with
      | some failure =>
        ⟨if failure = .internal ∨ failure = .unavailable then .transient else .definite, failure⟩
      | none => ⟨.definite, .unknownCode⟩

/-! ## Fields -/

def getUint32 (v : Option Value) (min max : ℕ) : Option U32 :=
  match v.bind Value.asInteger with
  | none => none
  | some i => if i.val < min ∨ (max : ℤ) < i.val then none else some (BitVec.ofInt 32 i.val)

def getNonnegative (v : Option Value) : Option ℤ :=
  match v.bind Value.asInteger with
  | none => none
  | some i => if i.val < 0 then none else some i.val

/-- A peer id is not 0. -/
def getPeerId (v : Option Value) : Option U32 := getUint32 v 1 0xFFFFFFFF

def getIpv4 (v : Option Value) : Option U32 := (v.bind Value.asString).bind parseIpv4

def candidateKind (kind : Bytes) : Option CandidateKind :=
  if kind = ascii "local" then some .local else if kind = ascii "reflexive" then
    some .reflexive else none

/-- The port 0 has the right type: it is refused by hygiene. -/
def decodeCandidate (v : Value) : Option Candidate := do
  let _ ← v.asObject
  let ip ← getIpv4 (v.find (ascii "ip"))
  let port ← getUint32 (v.find (ascii "port")) 0 65535
  let kind ← (v.find (ascii "kind")).bind Value.asString
  let kind ← candidateKind kind
  return ⟨⟨ip, port.setWidth 16⟩, kind⟩

/-- Before the peer is ready none of the last three fields may be there. -/
def decodePeer (v : Value) (own : List OwnSubnet) : Option PeerView := do
  let _ ← v.asObject
  let id ← getPeerId (v.find (ascii "peer_id"))
  let vip ← getIpv4 (v.find (ascii "virtual_ip"))
  let name ← (v.find (ascii "name")).bind Value.asString
  guard (isValidName name)
  let ready ← (v.find (ascii "ready")).bind Value.asBool
  let delay := v.find (ascii "punch_delay_ms")
  let elapsed := v.find (ascii "elapsed_since_ready_ms")
  let candidates := v.find (ascii "candidates")
  if !ready then
    guard (delay.isNone ∧ elapsed.isNone ∧ candidates.isNone)
    return { peerId := id, virtualIp := vip, name := name, ready := ready }
  else
    let delay ← getUint32 delay 0 0xFFFFFFFF
    let elapsed ← getNonnegative elapsed
    let items ← candidates.bind Value.asArray
    let typed ← items.mapM decodeCandidate
    return { peerId := id, virtualIp := vip, name := name, ready := ready, punchDelayMs := delay,
             elapsedSinceReadyMs := elapsed, candidates := sanitizeReceivedCandidates typed own }

/-- The rest of the list behind `out`, with no id twice. -/
def decodePeersFrom (own : List OwnSubnet) (out : List PeerView) : List Value →
    Option (List PeerView)
  | [] => some out
  | item :: rest =>
    match decodePeer item own with
    | none => none
    | some p =>
      if out.any (·.peerId = p.peerId) then none else decodePeersFrom own (out ++ [p]) rest

def decodePeers (v : Option Value) (own : List OwnSubnet) : Option (List PeerView) :=
  match v.bind Value.asArray with
  | none => none
  | some items => if maxOthers < items.length then none else decodePeersFrom own [] items

def decodeIdList (v : Option Value) : Option (List U32) :=
  match v.bind Value.asArray with
  | none => none
  | some items =>
    if maxOthers < items.length then none else items.mapM fun item => getPeerId (some item)

def containsPeer (peers : List PeerView) (id : U32) : Bool := peers.any (·.peerId = id)

def PeerToken.parse (text : Bytes) : Option PeerToken :=
  if h : isLowerHex32 text = true then some ⟨text, h⟩ else none

def decodeIssued (body : Value) : Option Issued := do
  let room ← (body.find (ascii "room_id")).bind Value.asString
  guard (isRoomIdExact room)
  let id ← getPeerId (body.find (ascii "peer_id"))
  let token ← (body.find (ascii "peer_token")).bind Value.asString
  let vip ← getIpv4 (body.find (ascii "virtual_ip"))
  let expires ← getNonnegative (body.find (ascii "expires_in_s"))
  let token ← PeerToken.parse token
  return ⟨room, id, token, vip, expires⟩

def decodeRegistered (body : Value) : Option Registered := do
  let accepted ← getUint32 (body.find (ascii "accepted")) 1 maxCandidates
  let rejected ← getUint32 (body.find (ascii "rejected")) 0 maxCandidates
  guard (accepted.toNat + rejected.toNat ≤ maxCandidates)
  return ⟨accepted, rejected⟩

def decodeGetPeers (own : List OwnSubnet) (body : Value) : Option Peers := do
  let ready ← (body.find (ascii "ready")).bind Value.asBool
  let peers ← decodePeers (body.find (ascii "peers")) own
  guard (ready = peers.any (·.ready))
  return ⟨ready, peers⟩

def decodeHostReport (own : List OwnSubnet) (body : Value) : Option HostReport := do
  let expires ← getNonnegative (body.find (ascii "expires_in_s"))
  let released ← decodeIdList (body.find (ascii "released"))
  let confirmed ← decodeIdList (body.find (ascii "confirmed"))
  let peers ← decodePeers (body.find (ascii "peers")) own
  return ⟨expires, released, confirmed, peers⟩

/-! ## Replies -/

/-- A success whose fields cannot be read is a transport error. -/
def interpret {α : Type} (raw : Bytes) (decode : Value → Option α) : Reply α :=
  match parseResponse raw with
  | .error _ => {}
  | .ok body =>
    let env := classifyEnvelope body
    if env.outcome ≠ .success then { outcome := env.outcome, failure := env.failure }
    else
      match decode body with
      | none => { outcome := .transient, failure := .transport }
      | some value => { outcome := env.outcome, failure := env.failure, value := some value }

def selfInPeers (α : Type) : Reply α := { outcome := .definite, failure := .selfInPeers }

def interpretCreateRoom (raw : Bytes) : Reply Issued := interpret raw decodeIssued

def interpretJoinRoom (raw : Bytes) : Reply Issued := interpret raw decodeIssued

def interpretRegisterCandidate (raw : Bytes) : Reply Registered := interpret raw decodeRegistered

/-- A message that lists the caller is a definite error. -/
def withoutSelf {α : Type} (peersOf : α → List PeerView) (self : U32) (reply : Reply α) : Reply α :=
  if reply.value.any fun value => containsPeer (peersOf value) self then selfInPeers α else reply

def interpretGetPeers (raw : Bytes) (self : U32) (own : List OwnSubnet) : Reply Peers :=
  withoutSelf Peers.peers self (interpret raw (decodeGetPeers own))

def interpretHostReport (raw : Bytes) (self : U32) (own : List OwnSubnet) : Reply HostReport :=
  withoutSelf HostReport.peers self (interpret raw (decodeHostReport own))

/-! ## The rules of a body

Each rule says what a JSON value states, without the decoders. -/

/-- The field is the integer `n`. -/
def IsInteger (v : Option Value) (n : ℤ) : Prop :=
  ∃ i : Int64Value, v = some (.integer i) ∧ i.val = n

def kindName : CandidateKind → Bytes
  | .local => ascii "local"
  | .reflexive => ascii "reflexive"

structure IsCandidate (v : Value) (c : Candidate) : Prop where
  ip : v.find (ascii "ip") = some (.string (formatIpv4 c.endpoint.address))
  port : IsInteger (v.find (ascii "port")) c.endpoint.port.toNat
  kind : v.find (ascii "kind") = some (.string (kindName c.kind))

def nameAlphabet : Bytes := ascii "ABCDEFGHIJKLMNOPQRSTUVWXYZabcdefghijklmnopqrstuvwxyz0123456789_"

structure IsName (name : Bytes) : Prop where
  nonempty : 1 ≤ name.length
  short : name.length ≤ maxNameLen
  letters : ∀ c ∈ name, c ∈ nameAlphabet

/-- The candidates of a peer are what hygiene leaves of those in the list. -/
structure IsPeer (own : List OwnSubnet) (v : Value) (p : PeerView) : Prop where
  id : IsInteger (v.find (ascii "peer_id")) p.peerId.toNat
  nonzero : p.peerId ≠ 0
  virtualIp : v.find (ascii "virtual_ip") = some (.string (formatIpv4 p.virtualIp))
  name : v.find (ascii "name") = some (.string p.name)
  valid : IsName p.name
  ready : v.find (ascii "ready") = some (.bool p.ready)
  waiting : p.ready = false → v.find (ascii "punch_delay_ms") = none ∧
    v.find (ascii "elapsed_since_ready_ms") = none ∧ v.find (ascii "candidates") = none ∧
    p.punchDelayMs = 0 ∧ p.elapsedSinceReadyMs = 0 ∧ p.candidates = []
  told : p.ready = true → IsInteger (v.find (ascii "punch_delay_ms")) p.punchDelayMs.toNat ∧
    IsInteger (v.find (ascii "elapsed_since_ready_ms")) p.elapsedSinceReadyMs ∧
    0 ≤ p.elapsedSinceReadyMs ∧
    ∃ items received, v.find (ascii "candidates") = some (.array items) ∧
      List.Forall₂ IsCandidate items received ∧
      p.candidates = sanitizeReceivedCandidates received own

/-- The peers of a room but one, with no id twice. -/
def IsPeers (own : List OwnSubnet) (v : Option Value) (peers : List PeerView) : Prop :=
  ∃ items, v = some (.array items) ∧ items.length ≤ maxOthers ∧
    List.Forall₂ (IsPeer own) items peers ∧
    (peers.map PeerView.peerId).Nodup

def IsIds (v : Option Value) (ids : List U32) : Prop :=
  ∃ items, v = some (.array items) ∧ items.length ≤ maxOthers ∧
    List.Forall₂ (fun item (id : U32) => IsInteger (some item) id.toNat ∧ id ≠ 0) items ids

structure IsGetPeers (own : List OwnSubnet) (body : Value) (value : Peers) : Prop where
  ready : body.find (ascii "ready") = some (.bool value.ready)
  peers : IsPeers own (body.find (ascii "peers")) value.peers
  some_ready : value.ready = true ↔ ∃ p ∈ value.peers, p.ready = true

structure IsHostReport (own : List OwnSubnet) (body : Value) (value : HostReport) : Prop where
  expires : IsInteger (body.find (ascii "expires_in_s")) value.expiresInS
  lasting : 0 ≤ value.expiresInS
  released : IsIds (body.find (ascii "released")) value.released
  confirmed : IsIds (body.find (ascii "confirmed")) value.confirmed
  peers : IsPeers own (body.find (ascii "peers")) value.peers

/-! ## The decoders read the bodies that keep the rules -/

theorem asString_iff {v : Option Value} {text : Bytes} : v.bind Value.asString = some text ↔
      v = some (.string text) := by
  rcases v with - | (_ | _ | _ | _ | _ | _ | _) <;> simp [Value.asString]

theorem asBool_iff {v : Option Value} {b : Bool} : v.bind Value.asBool = some b ↔
      v = some (.bool b) := by
  rcases v with - | (_ | _ | _ | _ | _ | _ | _) <;> simp [Value.asBool]

theorem asArray_iff {v : Option Value} {items : List Value} :
    v.bind Value.asArray = some items ↔ v = some (.array items) := by
  rcases v with - | (_ | _ | _ | _ | _ | _ | _) <;> simp [Value.asArray]

theorem asInteger_iff {v : Option Value} {i : Int64Value} :
    v.bind Value.asInteger = some i ↔ v = some (.integer i) := by
  rcases v with - | (_ | _ | _ | _ | _ | _ | _) <;> simp [Value.asInteger]

theorem asObject_of_find {v item : Value} {key : Bytes} (h : v.find key = some item) :
    ∃ members, v.asObject = some members := by
  cases v with
  | object members => exact ⟨members, rfl⟩
  | _ => cases h

theorem getUint32_iff {v : Option Value} {min max : ℕ} (hmax : max < 2 ^ 32) {n : U32} :
    getUint32 v min max = some n ↔ IsInteger v n.toNat ∧ min ≤ n.toNat ∧ n.toNat ≤ max := by
  unfold getUint32 IsInteger
  constructor
  · intro h
    cases hi : v.bind Value.asInteger with
    | none => simp [hi] at h
    | some i =>
      rw [hi] at h
      dsimp only at h
      split_ifs at h with hrange
      cases h
      have hvalue : ((BitVec.ofInt 32 i.val).toNat : ℤ) = i.val := by
        rw [BitVec.toNat_ofInt]
        omega
      exact ⟨⟨i, asInteger_iff.mp hi, hvalue.symm⟩, by omega, by omega⟩
  · rintro ⟨⟨i, hi, hvalue⟩, hlow, hhigh⟩
    rw [asInteger_iff.mpr hi]
    dsimp only
    rw [if_neg (by omega), hvalue, BitVec.ofInt_natCast, BitVec.ofNat_toNat, BitVec.setWidth_eq]

theorem getNonnegative_iff {v : Option Value} {n : ℤ} : getNonnegative v = some n ↔
      IsInteger v n ∧ 0 ≤ n := by
  unfold getNonnegative IsInteger
  constructor
  · intro h
    cases hi : v.bind Value.asInteger with
    | none => simp [hi] at h
    | some i =>
      rw [hi] at h
      dsimp only at h
      split_ifs at h with hneg
      cases h
      exact ⟨⟨i, asInteger_iff.mp hi, rfl⟩, Int.not_lt.mp hneg⟩
  · rintro ⟨⟨i, hi, rfl⟩, hle⟩
    rw [asInteger_iff.mpr hi]
    exact if_neg (Int.not_lt.mpr hle)

theorem getPeerId_iff {v : Option Value} {id : U32} : getPeerId v = some id ↔
      IsInteger v id.toNat ∧ id ≠ 0 := by
  unfold getPeerId
  rw [getUint32_iff (by decide)]
  have hzero : id ≠ 0 ↔ 1 ≤ id.toNat := by
    rw [Nat.one_le_iff_ne_zero, ne_eq, ne_eq, ← BitVec.toNat_inj]
    rfl
  rw [hzero]
  have hlt := id.isLt
  constructor
  · exact fun h => ⟨h.1, h.2.1⟩
  · exact fun h => ⟨h.1, h.2, by omega⟩

theorem getIpv4_iff {v : Option Value} {address : U32} :
    getIpv4 v = some address ↔ v = some (.string (formatIpv4 address)) := by
  unfold getIpv4
  rw [Option.bind_eq_some_iff]
  constructor
  · rintro ⟨text, htext, haddress⟩
    rw [asString_iff.mp htext, parseIpv4_eq_some_iff.mp haddress]
  · intro h
    exact ⟨_, asString_iff.mpr h, parseIpv4_eq_some_iff.mpr rfl⟩

theorem candidateKind_iff {text : Bytes} {kind : CandidateKind} : candidateKind text = some kind ↔
      text = kindName kind := by
  unfold candidateKind
  constructor
  · intro h
    split_ifs at h with hlocal hreflexive
    · cases h
      exact hlocal
    · cases h
      exact hreflexive
  · rintro rfl
    cases kind with
    | «local» => exact if_pos rfl
    | reflexive => rw [kindName, if_neg (by decide), if_pos rfl]

theorem decodeCandidate_iff {v : Value} {c : Candidate} : decodeCandidate v = some c ↔
      IsCandidate v c := by
  constructor
  · intro h
    simp only [decodeCandidate, Option.bind_eq_bind, Option.bind_eq_some_iff, Option.pure_def,
      Option.some.injEq] at h
    obtain ⟨_, -, ip, hip, port, hport, text, htext, kind, hkind, rfl⟩ := h
    obtain ⟨hinteger, -, hle⟩ := (getUint32_iff (by decide)).mp hport
    refine ⟨getIpv4_iff.mp hip, ?_, ?_⟩
    · have hsame : (port.setWidth 16).toNat = port.toNat := by
        rw [BitVec.toNat_setWidth, Nat.mod_eq_of_lt (by omega)]
      rw [hsame]
      exact hinteger
    · rw [asString_iff.mp (Option.bind_eq_some_iff.mpr htext), candidateKind_iff.mp hkind]
  · intro h
    obtain ⟨members, hobject⟩ := asObject_of_find h.ip
    have hport : getUint32 (v.find (ascii "port")) 0 65535 =
      some (c.endpoint.port.setWidth 32) := by
      have hlt := c.endpoint.port.isLt
      have hsame : (c.endpoint.port.setWidth 32).toNat = c.endpoint.port.toNat := by
        rw [BitVec.toNat_setWidth, Nat.mod_eq_of_lt (by omega)]
      rw [getUint32_iff (by decide), hsame]
      exact ⟨h.port, Nat.zero_le _, by omega⟩
    have hback : (c.endpoint.port.setWidth 32).setWidth 16 = c.endpoint.port := by
      rw [BitVec.setWidth_setWidth_of_le _ (by decide), BitVec.setWidth_eq]
    unfold decodeCandidate
    rw [hobject, getIpv4_iff.mpr h.ip, hport, asString_iff.mpr h.kind]
    simp only [Option.bind_eq_bind, Option.bind_some, candidateKind_iff.mpr rfl, hback,
      Option.pure_def]

theorem mapM_iff {α β : Type} {f : α → Option β} {xs : List α} {ys : List β} :
    xs.mapM f = some ys ↔ List.Forall₂ (fun x y => f x = some y) xs ys := by
  induction xs generalizing ys with
  | nil => simp [eq_comm]
  | cons x xs ih =>
    rw [List.mapM_cons, Option.bind_eq_bind, Option.bind_eq_some_iff]
    constructor
    · rintro ⟨y, hy, hrest⟩
      obtain ⟨rest, hall, hcons⟩ := Option.bind_eq_some_iff.mp hrest
      cases hcons
      exact .cons hy (ih.mp hall)
    · rintro (- | ⟨hy, hall⟩)
      exact ⟨_, hy, by rw [ih.mpr hall]; rfl⟩

theorem isName_iff {name : Bytes} : isValidName name = true ↔ IsName name := by
  have hletters : ∀ c : U8, isNameByte c = true ↔ c ∈ nameAlphabet := by
    have hall : ∀ n < 256,
      isNameByte (BitVec.ofNat 8 n) = decide (BitVec.ofNat 8 n ∈ nameAlphabet) := by
      decide +kernel
    intro c
    have hc := hall c.toNat c.isLt
    rw [BitVec.ofNat_toNat, BitVec.setWidth_eq] at hc
    rw [hc, decide_eq_true_iff]
  unfold isValidName
  rw [Bool.and_eq_true, Bool.and_eq_true, decide_eq_true_iff, List.all_eq_true]
  constructor
  · rintro ⟨⟨hne, hshort⟩, hall⟩
    refine ⟨?_, hshort, fun c hc => (hletters c).mp (hall c hc)⟩
    rw [Nat.one_le_iff_ne_zero, ne_eq, List.length_eq_zero_iff]
    rintro rfl
    cases hne
  · intro h
    refine ⟨⟨?_, h.short⟩, fun c hc => (hletters c).mpr (h.letters c hc)⟩
    cases name with
    | nil => exact absurd h.nonempty (by decide)
    | cons c rest => rfl

theorem decodePeer_iff {v : Value} {own : List OwnSubnet} {p : PeerView} :
    decodePeer v own = some p ↔ IsPeer own v p := by
  constructor
  · intro h
    obtain ⟨_, -, h⟩ := Option.bind_eq_some_iff.mp h
    obtain ⟨id, hid, h⟩ := Option.bind_eq_some_iff.mp h
    obtain ⟨vip, hvip, h⟩ := Option.bind_eq_some_iff.mp h
    obtain ⟨name, hname, h⟩ := Option.bind_eq_some_iff.mp h
    obtain ⟨_, hvalid, h⟩ := Option.bind_eq_some_iff.mp h
    obtain ⟨ready, hready, h⟩ := Option.bind_eq_some_iff.mp h
    obtain ⟨hinteger, hnonzero⟩ := getPeerId_iff.mp hid
    have hvip' := getIpv4_iff.mp hvip
    have hname' := asString_iff.mp hname
    have hname'' : IsName name := isName_iff.mp ((Option.guard_eq_some' _).mp hvalid)
    have hready' := asBool_iff.mp hready
    cases ready with
    | false =>
      dsimp only at h
      rw [if_pos (by decide)] at h
      obtain ⟨_, habsent, h⟩ := Option.bind_eq_some_iff.mp h
      obtain ⟨hdelay, helapsed, hcandidates⟩ := (Option.guard_eq_some' _).mp habsent
      cases h
      refine ⟨hinteger, hnonzero, hvip', hname', hname'', hready', fun _ => ?_, nofun⟩
      exact ⟨Option.isNone_iff_eq_none.mp hdelay, Option.isNone_iff_eq_none.mp helapsed,
        Option.isNone_iff_eq_none.mp hcandidates, rfl, rfl, rfl⟩
    | true =>
      dsimp only at h
      rw [if_neg (by decide)] at h
      obtain ⟨delay, hdelay, h⟩ := Option.bind_eq_some_iff.mp h
      obtain ⟨elapsed, helapsed, h⟩ := Option.bind_eq_some_iff.mp h
      obtain ⟨items, hitems, h⟩ := Option.bind_eq_some_iff.mp h
      obtain ⟨typed, htyped, h⟩ := Option.bind_eq_some_iff.mp h
      cases h
      refine ⟨hinteger, hnonzero, hvip', hname', hname'', hready', nofun, fun _ => ?_⟩
      obtain ⟨helapsed', hle⟩ := getNonnegative_iff.mp helapsed
      refine ⟨((getUint32_iff (by decide)).mp hdelay).1, helapsed', hle, items, typed,
        asArray_iff.mp hitems, ?_, rfl⟩
      exact (mapM_iff.mp htyped).imp fun _ _ => decodeCandidate_iff.mp
  · intro h
    obtain ⟨members, hobject⟩ := asObject_of_find h.name
    have hid := getPeerId_iff.mpr ⟨h.id, h.nonzero⟩
    have hvalid : guard (f := Option) (isValidName p.name = true) = some () :=
      (Option.guard_eq_some' _).mpr (isName_iff.mpr h.valid)
    unfold decodePeer
    rw [hobject, hid, getIpv4_iff.mpr h.virtualIp, asString_iff.mpr h.name, asBool_iff.mpr h.ready]
    simp only [Option.bind_eq_bind, Option.bind_some, hvalid]
    obtain ⟨peerId, virtualIp, name, ready, delay, elapsed, candidates⟩ := p
    cases ready with
    | false =>
      obtain ⟨hdelay, helapsed, hcandidates, hdelay', helapsed', hcandidates'⟩ := h.waiting rfl
      rw [hdelay, helapsed, hcandidates]
      cases hdelay'
      cases helapsed'
      cases hcandidates'
      rfl
    | true =>
      obtain ⟨hdelay, helapsed, hle, items, received, hitems, hall, hkept⟩ := h.told rfl
      have hdelay' : getUint32 (v.find (ascii "punch_delay_ms")) 0 0xFFFFFFFF = some delay :=
        (getUint32_iff (by decide)).mpr ⟨hdelay, Nat.zero_le _, Nat.le_of_lt_succ delay.isLt⟩
      have hmapped : items.mapM decodeCandidate = some received :=
        mapM_iff.mpr (hall.imp fun _ _ => decodeCandidate_iff.mpr)
      subst hkept
      rw [hdelay', getNonnegative_iff.mpr ⟨helapsed, hle⟩, asArray_iff.mpr hitems]
      simp only [Bool.not_true, Bool.false_eq_true, if_false, Option.bind_some, hmapped,
        Option.pure_def]

/-- The loop keeps what it has and reads the rest, while no id comes twice. -/
theorem decodePeersFrom_iff {own : List OwnSubnet} {out peers : List PeerView} {items : List Value}
    (hout : (out.map PeerView.peerId).Nodup) :
    decodePeersFrom own out items = some peers ↔
      ∃ rest, peers = out ++ rest ∧ List.Forall₂ (IsPeer own) items rest ∧
        (peers.map PeerView.peerId).Nodup := by
  induction items generalizing out with
  | nil =>
    constructor
    · intro h
      cases h
      exact ⟨[], (List.append_nil _).symm, .nil, hout⟩
    · rintro ⟨rest, rfl, hall, -⟩
      cases hall
      rw [List.append_nil]
      rfl
  | cons item items ih =>
    unfold decodePeersFrom
    constructor
    · intro h
      cases hitem : decodePeer item own with
      | none => simp [hitem] at h
      | some p =>
        rw [hitem] at h
        dsimp only at h
        split_ifs at h with hseen
        have hfresh : ((out ++ [p]).map PeerView.peerId).Nodup := by
          rw [List.map_append, List.map_singleton, List.nodup_append_comm, List.singleton_append,
            List.nodup_cons]
          refine ⟨fun hin => hseen ?_, hout⟩
          obtain ⟨q, hq, hsame⟩ := List.mem_map.mp hin
          exact List.any_eq_true.mpr ⟨q, hq, decide_eq_true hsame⟩
        obtain ⟨rest, rfl, hall, hnodup⟩ := (ih hfresh).mp h
        refine ⟨p :: rest, ?_, .cons (decodePeer_iff.mp hitem) hall, hnodup⟩
        rw [List.append_assoc, List.singleton_append]
    · rintro ⟨rest, rfl, hall, hnodup⟩
      obtain - | @⟨_, p, _, rest, hpeer, hall⟩ := hall
      rw [decodePeer_iff.mpr hpeer]
      dsimp only
      have happend : out ++ p :: rest = (out ++ [p]) ++ rest := by
        rw [List.append_assoc, List.singleton_append]
      have hfresh : ((out ++ [p]).map PeerView.peerId).Nodup := by
        rw [happend, List.map_append] at hnodup
        exact hnodup.of_append_left
      rw [if_neg]
      · exact (ih hfresh).mpr ⟨rest, happend, hall, hnodup⟩
      · intro hseen
        obtain ⟨q, hq, hsame⟩ := List.any_eq_true.mp hseen
        rw [List.map_append, List.map_singleton, List.nodup_append_comm, List.singleton_append,
          List.nodup_cons] at hfresh
        exact hfresh.1 (List.mem_map.mpr ⟨q, hq, of_decide_eq_true hsame⟩)

theorem decodePeers_iff {v : Option Value} {own : List OwnSubnet} {peers : List PeerView} :
    decodePeers v own = some peers ↔ IsPeers own v peers := by
  have hnil : (([] : List PeerView).map PeerView.peerId).Nodup := List.nodup_nil
  unfold decodePeers
  constructor
  · intro h
    cases hitems : v.bind Value.asArray with
    | none => simp [hitems] at h
    | some items =>
      rw [hitems] at h
      dsimp only at h
      split_ifs at h with hmany
      obtain ⟨rest, rfl, hall, hnodup⟩ := (decodePeersFrom_iff hnil).mp h
      exact ⟨items, asArray_iff.mp hitems, Nat.not_lt.mp hmany, hall, hnodup⟩
  · rintro ⟨items, hitems, hfew, hall, hnodup⟩
    rw [asArray_iff.mpr hitems]
    dsimp only
    rw [if_neg (Nat.not_lt.mpr hfew)]
    exact (decodePeersFrom_iff hnil).mpr ⟨peers, rfl, hall, hnodup⟩

theorem decodeIdList_iff {v : Option Value} {ids : List U32} : decodeIdList v = some ids ↔
      IsIds v ids := by
  unfold decodeIdList
  constructor
  · intro h
    cases hitems : v.bind Value.asArray with
    | none => simp [hitems] at h
    | some items =>
      rw [hitems] at h
      dsimp only at h
      split_ifs at h with hmany
      exact ⟨items, asArray_iff.mp hitems, Nat.not_lt.mp hmany,
        (mapM_iff.mp h).imp fun _ _ => getPeerId_iff.mp⟩
  · rintro ⟨items, hitems, hfew, hall⟩
    rw [asArray_iff.mpr hitems]
    dsimp only
    rw [if_neg (Nat.not_lt.mpr hfew)]
    exact mapM_iff.mpr (hall.imp fun _ _ => getPeerId_iff.mpr)

theorem any_ready_iff {ready : Bool} {peers : List PeerView} :
    ready = peers.any (·.ready) ↔ (ready = true ↔ ∃ p ∈ peers, p.ready = true) := by
  rw [Bool.eq_iff_iff, List.any_eq_true]

theorem decodeGetPeers_iff {own : List OwnSubnet} {body : Value} {value : Peers} :
    decodeGetPeers own body = some value ↔ IsGetPeers own body value := by
  constructor
  · intro h
    obtain ⟨ready, hready, h⟩ := Option.bind_eq_some_iff.mp h
    obtain ⟨peers, hpeers, h⟩ := Option.bind_eq_some_iff.mp h
    obtain ⟨_, hany, h⟩ := Option.bind_eq_some_iff.mp h
    cases h
    exact ⟨asBool_iff.mp hready, decodePeers_iff.mp hpeers,
      any_ready_iff.mp ((Option.guard_eq_some' _).mp hany)⟩
  · intro h
    have hany : guard (f := Option) (value.ready = value.peers.any (·.ready)) = some () :=
      (Option.guard_eq_some' _).mpr (any_ready_iff.mpr h.some_ready)
    unfold decodeGetPeers
    rw [asBool_iff.mpr h.ready, decodePeers_iff.mpr h.peers]
    simp only [Option.bind_eq_bind, Option.bind_some, hany, Option.pure_def]

theorem decodeHostReport_iff {own : List OwnSubnet} {body : Value} {value : HostReport} :
    decodeHostReport own body = some value ↔ IsHostReport own body value := by
  constructor
  · intro h
    obtain ⟨expires, hexpires, h⟩ := Option.bind_eq_some_iff.mp h
    obtain ⟨released, hreleased, h⟩ := Option.bind_eq_some_iff.mp h
    obtain ⟨confirmed, hconfirmed, h⟩ := Option.bind_eq_some_iff.mp h
    obtain ⟨peers, hpeers, h⟩ := Option.bind_eq_some_iff.mp h
    cases h
    obtain ⟨hinteger, hlasting⟩ := getNonnegative_iff.mp hexpires
    exact ⟨hinteger, hlasting, decodeIdList_iff.mp hreleased, decodeIdList_iff.mp hconfirmed,
      decodePeers_iff.mp hpeers⟩
  · intro h
    unfold decodeHostReport
    rw [getNonnegative_iff.mpr ⟨h.expires, h.lasting⟩, decodeIdList_iff.mpr h.released,
      decodeIdList_iff.mpr h.confirmed, decodePeers_iff.mpr h.peers]
    rfl

/-! ## What a reply guarantees -/

/-- The peers of a success: few, different, none of them the caller, with clean candidates. -/
structure PeersSound (own : List OwnSubnet) (self : U32) (peers : List PeerView) : Prop where
  few : peers.length ≤ maxPeers - 1
  distinct : (peers.map PeerView.peerId).Nodup
  others : ∀ p ∈ peers, p.peerId ≠ 0 ∧ p.peerId ≠ self
  names : ∀ p ∈ peers, IsName p.name
  waiting : ∀ p ∈ peers, p.ready = false → p.candidates = []
  clean : ∀ p ∈ peers, Clean own p.candidates
  elapsed : ∀ p ∈ peers, 0 ≤ p.elapsedSinceReadyMs

theorem IsPeer.clean {own : List OwnSubnet} {v : Value} {p : PeerView} (h : IsPeer own v p) :
    Clean own p.candidates := by
  cases hready : p.ready with
  | false =>
    obtain ⟨-, -, -, -, -, hnone⟩ := h.waiting hready
    rw [hnone]
    exact sanitized_clean [] own
  | true =>
    obtain ⟨-, -, -, _, received, -, -, hkept⟩ := h.told hready
    rw [hkept]
    exact sanitized_clean received own

theorem IsPeer.elapsed {own : List OwnSubnet} {v : Value} {p : PeerView} (h : IsPeer own v p) :
    0 ≤ p.elapsedSinceReadyMs := by
  cases hready : p.ready with
  | false => exact (h.waiting hready).2.2.2.2.1.ge
  | true => exact (h.told hready).2.2.1

theorem IsPeers.sound {own : List OwnSubnet} {v : Option Value} {self : U32} {peers : List PeerView}
    (h : IsPeers own v peers) (hself : ∀ p ∈ peers, p.peerId ≠ self) :
    PeersSound own self peers := by
  obtain ⟨items, -, hfew, hall, hnodup⟩ := h
  have hpeer : ∀ p ∈ peers, ∃ item, IsPeer own item p := by
    intro p hp
    obtain ⟨i, hi, rfl⟩ := List.mem_iff_getElem.mp hp
    have hlength := hall.length_eq
    exact ⟨items[i], (List.forall₂_iff_get.mp hall).2 i (by omega) hi⟩
  refine ⟨hall.length_eq ▸ hfew, hnodup, fun p hp => ?_, fun p hp => ?_, fun p hp hwaiting => ?_,
    fun p hp => ?_,
    fun p hp => ?_⟩ <;> obtain ⟨item, hitem⟩ := hpeer p hp
  · exact ⟨hitem.nonzero, hself p hp⟩
  · exact hitem.valid
  · exact (hitem.waiting hwaiting).2.2.2.2.2
  · exact hitem.clean
  · exact hitem.elapsed

theorem containsPeer_iff {peers : List PeerView} {id : U32} : containsPeer peers id = true ↔
      ∃ p ∈ peers, p.peerId = id := by
  unfold containsPeer
  simp only [List.any_eq_true, decide_eq_true_eq]

theorem classifyEnvelope_ok {body : Value} (h : body.find (ascii "ok") = some (.bool true)) :
    classifyEnvelope body = ⟨.success, .none⟩ := by
  unfold classifyEnvelope
  rw [asBool_iff.mpr h]

theorem classifyEnvelope_success {body : Value} (h : (classifyEnvelope body).outcome = .success) :
    body.find (ascii "ok") = some (.bool true) := by
  unfold classifyEnvelope at h
  rw [← asBool_iff]
  cases hok : (body.find (ascii "ok")).bind Value.asBool with
  | none => simp [hok] at h
  | some ok =>
    cases ok with
    | true => rfl
    | false =>
      rw [hok] at h
      cases hcode : (body.find (ascii "error")).bind Value.asString with
      | none => simp [hcode] at h
      | some code =>
        rw [hcode] at h
        dsimp only at h
        cases hrow : codes.lookup code with
        | none => simp [hrow] at h
        | some failure =>
          rw [hrow] at h
          dsimp only at h
          split_ifs at h

section
variable {α : Type} {raw : Bytes} {body : Value} {decode : Value → Option α}
  {rules : Value → α → Prop}
  {peersOf : α → List PeerView} {self : U32} {value : α}

theorem interpret_read (hraw : parseResponse raw = .ok body)
    (hok : body.find (ascii "ok") = some (.bool true)) (hvalue : decode body = some value) :
    interpret raw decode = ⟨.success, .none, some value⟩ := by
  unfold interpret
  rw [hraw]
  dsimp only
  rw [classifyEnvelope_ok hok, if_neg (by decide), hvalue]

theorem interpret_unread (hraw : parseResponse raw = .ok body)
    (hok : body.find (ascii "ok") = some (.bool true)) (hvalue : decode body = none) :
    interpret raw decode = transportFailure α := by
  unfold interpret
  rw [hraw]
  dsimp only
  rw [classifyEnvelope_ok hok, if_neg (by decide), hvalue]
  rfl

/-- A message whose fields can be read is a success, and nothing else is. -/
theorem interpret_cases (raw : Bytes) (decode : Value → Option α) :
    (∃ body value, parseResponse raw = .ok body ∧ decode body = some value ∧
      interpret raw decode = ⟨.success, .none, some value⟩) ∨
    (interpret raw decode).outcome ≠ .success ∧ (interpret raw decode).value = none := by
  cases hraw : parseResponse raw with
  | error e =>
    right
    simp [interpret, hraw]
  | ok body =>
    by_cases hsuccess : (classifyEnvelope body).outcome = .success
    · have hok := classifyEnvelope_success hsuccess
      cases hvalue : decode body with
      | none =>
        right
        rw [interpret_unread hraw hok hvalue]
        exact ⟨nofun, rfl⟩
      | some value =>
        left
        exact ⟨body, value, rfl, hvalue, interpret_read hraw hok hvalue⟩
    · right
      unfold interpret
      rw [hraw]
      dsimp only
      rw [if_pos hsuccess]
      exact ⟨hsuccess, rfl⟩

theorem withoutSelf_other (h : ∀ p ∈ peersOf value, p.peerId ≠ self) {outcome : Outcome}
    {failure : Failure} :
    withoutSelf peersOf self ⟨outcome, failure, some value⟩ = ⟨outcome, failure, some value⟩ := by
  unfold withoutSelf
  rw [if_neg]
  intro hin
  obtain ⟨p, hp, hself⟩ := containsPeer_iff.mp hin
  exact h p hp hself

theorem withoutSelf_self (h : ∃ p ∈ peersOf value, p.peerId = self) {outcome : Outcome}
    {failure : Failure} :
    withoutSelf peersOf self ⟨outcome, failure, some value⟩ = selfInPeers α := by
  unfold withoutSelf
  exact if_pos (containsPeer_iff.mpr h)

theorem withoutSelf_none {reply : Reply α} (h : reply.value = none) :
    withoutSelf peersOf self reply = reply := by
  unfold withoutSelf
  rw [h]
  rfl

variable (hrules : ∀ body value, decode body = some value ↔ rules body value)
include hrules

theorem reply_success (h : (withoutSelf peersOf self (interpret raw decode)).outcome = .success) :
    ∃ body value, rules body value ∧
      (withoutSelf peersOf self (interpret raw decode)).value = some value ∧
      ∀ p ∈ peersOf value, p.peerId ≠ self := by
  rcases interpret_cases raw decode with ⟨body, value, -, hvalue, hreply⟩ | ⟨hother, hnone⟩
  · rw [hreply] at h ⊢
    by_cases hself : ∃ p ∈ peersOf value, p.peerId = self
    · rw [withoutSelf_self hself] at h
      cases h
    · push Not at hself
      exact ⟨body, value, (hrules _ _).mp hvalue, by rw [withoutSelf_other hself], hself⟩
  · rw [withoutSelf_none hnone] at h
    exact absurd h hother

omit hrules in
theorem reply_failure (h : (withoutSelf peersOf self (interpret raw decode)).outcome ≠ .success) :
    (withoutSelf peersOf self (interpret raw decode)).value = none := by
  rcases interpret_cases raw decode with ⟨body, value, -, hvalue, hreply⟩ | ⟨hother, hnone⟩
  · rw [hreply] at h ⊢
    by_cases hself : ∃ p ∈ peersOf value, p.peerId = self
    · rw [withoutSelf_self hself]
      rfl
    · push Not at hself
      rw [withoutSelf_other hself] at h
      exact absurd rfl h
  · rw [withoutSelf_none hnone]
    exact hnone

/-- What becomes of a message whose `ok` is true, by what it states. -/
theorem reply_message (hraw : parseResponse raw = .ok body)
    (hok : body.find (ascii "ok") = some (.bool true)) :
    ((¬∃ value, rules body value) →
      withoutSelf peersOf self (interpret raw decode) = transportFailure α) ∧
    ∀ value, rules body value →
      ((∃ p ∈ peersOf value, p.peerId = self) →
        withoutSelf peersOf self (interpret raw decode) = ⟨.definite, .selfInPeers, none⟩) ∧
      ((∀ p ∈ peersOf value, p.peerId ≠ self) →
        withoutSelf peersOf self (interpret raw decode) = ⟨.success, .none, some value⟩) := by
  constructor
  · intro hnone
    have hvalue : decode body = none := by
      rw [Option.eq_none_iff_forall_ne_some]
      exact fun value hvalue => hnone ⟨value, (hrules _ _).mp hvalue⟩
    rw [interpret_unread hraw hok hvalue]
    exact withoutSelf_none rfl
  · intro value hvalue
    rw [interpret_read hraw hok ((hrules _ _).mpr hvalue)]
    exact ⟨fun hself => withoutSelf_self hself, fun hothers => withoutSelf_other hothers⟩

end

/-- Every success has sound peers, every other reply has no value, and a message that says `ok`
becomes what its fields state. -/
theorem replies_sound (raw : Bytes) (self : U32) (own : List OwnSubnet) :
    ((interpretGetPeers raw self own).outcome = .success →
      ∃ value, (interpretGetPeers raw self own).value = some value ∧
        PeersSound own self value.peers ∧
        (value.ready = true ↔ ∃ p ∈ value.peers, p.ready = true)) ∧
    ((interpretHostReport raw self own).outcome = .success →
      ∃ value, (interpretHostReport raw self own).value = some value ∧
        PeersSound own self value.peers ∧
        0 ≤ value.expiresInS) ∧
    ((interpretGetPeers raw self own).outcome ≠ .success →
      (interpretGetPeers raw self own).value = none) ∧
    ((interpretHostReport raw self own).outcome ≠ .success →
      (interpretHostReport raw self own).value = none) ∧
    ∀ body, parseResponse raw = .ok body → body.find (ascii "ok") = some (.bool true) →
      (((¬∃ value, IsGetPeers own body value) →
        interpretGetPeers raw self own = ⟨.transient, .transport, none⟩) ∧
        ∀ value, IsGetPeers own body value →
          ((∃ p ∈ value.peers, p.peerId = self) →
            interpretGetPeers raw self own = ⟨.definite, .selfInPeers, none⟩) ∧
          ((∀ p ∈ value.peers, p.peerId ≠ self) →
            interpretGetPeers raw self own = ⟨.success, .none, some value⟩)) ∧
      (((¬∃ value, IsHostReport own body value) →
        interpretHostReport raw self own = ⟨.transient, .transport, none⟩) ∧
        ∀ value, IsHostReport own body value →
          ((∃ p ∈ value.peers, p.peerId = self) →
            interpretHostReport raw self own = ⟨.definite, .selfInPeers, none⟩) ∧
          ((∀ p ∈ value.peers, p.peerId ≠ self) →
            interpretHostReport raw self own = ⟨.success, .none, some value⟩)) := by
  have hpeers : ∀ body value, decodeGetPeers own body = some value ↔ IsGetPeers own body value :=
    fun _ _ => decodeGetPeers_iff
  have hreport : ∀ body value, decodeHostReport own body = some value ↔
    IsHostReport own body value :=
    fun _ _ => decodeHostReport_iff
  refine ⟨fun h => ?_, fun h => ?_, reply_failure, reply_failure, fun body hraw hok => ?_⟩
  · obtain ⟨body, value, hvalue, hreply, hself⟩ := reply_success hpeers h
    exact ⟨value, hreply, hvalue.peers.sound hself, hvalue.some_ready⟩
  · obtain ⟨body, value, hvalue, hreply, hself⟩ := reply_success hreport h
    exact ⟨value, hreply, hvalue.peers.sound hself, hvalue.lasting⟩
  · exact ⟨reply_message hpeers hraw hok, reply_message hreport hraw hok⟩

/-- A room with one ready peer, whose second candidate is refused. -/
def sampleBody : Bytes :=
  ascii
    "\x7b\"ok\":true,\"ready\":true,\"peers\":[\x7b\"peer_id\":2," ++
    ascii "\"virtual_ip\":\"10.99.0.2\",\"name\":\"guest\"," ++
    ascii "\"ready\":true,\"punch_delay_ms\":0,\"elapsed_since_ready_ms\":5,\"candidates\":[" ++
    ascii "\x7b\"ip\":\"203.0.113.5\",\"port\":4000,\"kind\":\"reflexive\"\x7d," ++
    ascii "\x7b\"ip\":\"127.0.0.1\",\"port\":4000,\"kind\":\"local\"\x7d]\x7d]\x7d"

def sampleMessage : Bytes :=
  ascii "HTTP/1.1 200 OK\r\nContent-Length: " ++ Lobby.decimal sampleBody.length ++
    ascii "\r\n\r\n" ++ sampleBody

theorem sampleMessage_read : ∃ value, (interpretGetPeers sampleMessage 1 []).value = some value ∧
    PeersSound [] 1 value.peers ∧ (value.ready = true ↔ ∃ p ∈ value.peers, p.ready = true) := by
  have hsuccess : (interpretGetPeers sampleMessage 1 []).outcome = .success := by
    decide +kernel
  exact (replies_sound sampleMessage 1 []).1 hsuccess

end Sangtachi.Responses
