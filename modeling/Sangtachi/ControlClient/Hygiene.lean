import Sangtachi.Core.FirstOccurrences
import Sangtachi.Control.Reports
import Sangtachi.Network.EndpointText

/-! # Hygiene of candidates, on both sides

The server and the client read the same addresses, refuse the same candidates, and a list that the
server has stored goes through the client unchanged. -/
namespace Sangtachi.Hygiene

open Sangtachi.BigEndian Sangtachi.Peer Sangtachi.Network
open Sangtachi.Lobby
  (Bytes OwnSubnet blocksBroadcast rejectedByHygiene keepCandidate sanitizeReceivedCandidates
  maxCandidates decimal formatIpv4)
open Sangtachi.Control (Text Octets sanitationReject sanitizeCandidates)
open Sangtachi.FirstOccurrences

/-! ## Addresses -/

def utf8 (text : Text) : Bytes := text.flatMap fun c => (String.utf8EncodeChar c).map UInt8.toBitVec

theorem utf8_injective {text text' : Text} (h : utf8 text = utf8 text') : text = text' := by
  have hmap (t : Text) : utf8 t = (t.flatMap String.utf8EncodeChar).map UInt8.toBitVec :=
    (List.map_flatMap).symm
  have hinj : Function.Injective UInt8.toBitVec := fun a b hab => UInt8.eq_of_toBitVec_eq hab
  rw [hmap, hmap] at h
  have hbytes : text.utf8Encode = text'.utf8Encode :=
    congrArg List.toByteArray (List.map_injective_iff.mpr hinj h)
  rw [← String.toByteArray_ofList, ← String.toByteArray_ofList, String.toByteArray_inj] at hbytes
  rw [← String.toList_ofList (l := text), hbytes, String.toList_ofList]

theorem utf8_append (a b : Text) : utf8 (a ++ b) = utf8 a ++ utf8 b := List.flatMap_append

theorem utf8_cons (c : Char) (text : Text) :
    utf8 (c :: text) = (String.utf8EncodeChar c).map UInt8.toBitVec ++ utf8 text := rfl

theorem utf8_toDigits (n : ℕ) : utf8 (Nat.toDigits 10 n) = decimal n := by
  rw [decimal_eq]
  have hdigits := (Decimal.toDigits_canonical n).digits
  generalize Nat.toDigits 10 n = text at hdigits
  induction text with
  | nil => rfl
  | cons c text ih =>
    obtain ⟨hc, hrest⟩ := List.forall_mem_cons.mp hdigits
    obtain ⟨hten, hchar⟩ := Decimal.digitChar_toNat hc
    have hall : ∀ d < 10, (String.utf8EncodeChar (Nat.digitChar d)).map UInt8.toBitVec =
        [byteOf (Nat.digitChar d)] := by decide +kernel
    rw [utf8_cons, ih hrest, List.map_cons, ← hchar, hall _ hten, hchar]
    rfl

/-- Four octets with dots between them, in the server's characters. -/
def quad (a b c d : ℕ) : Text :=
  Nat.toDigits 10 a ++
    '.' :: (Nat.toDigits 10 b ++ '.' :: (Nat.toDigits 10 c ++ '.' :: Nat.toDigits 10 d))

theorem utf8_quad (a b c d : ℕ) : utf8 (quad a b c d) = octetsText [a, b, c, d] := by
  have hdot : (String.utf8EncodeChar '.').map UInt8.toBitVec = [dot] := by decide +kernel
  unfold quad
  rw [octetsText_cons _ (by simp), octetsText_cons _ (by simp), octetsText_cons _ (by simp),
    octetsText_singleton]
  simp only [utf8_append, utf8_cons, hdot, utf8_toDigits, List.singleton_append]

theorem parseOctet_iff {part : Text} {v : ℕ} :
    Control.parseOctet part = some v ↔ v ≤ 255 ∧ part = Nat.toDigits 10 v := by
  have hvalue (t : Text) : Control.digitsValue t = Decimal.value t := rfl
  unfold Control.parseOctet
  constructor
  · intro h
    split_ifs at h with hshape hzero hbig
    cases h
    rw [not_or, not_or] at hshape
    have hcanonical : Decimal.Canonical part := by
      refine ⟨fun hempty => hshape.1 (by rw [hempty]; rfl), ?_,
        fun hlong hhead => hzero ⟨hlong, hhead⟩⟩
      exact List.all_eq_true.mp (not_not.mp hshape.2.2)
    exact ⟨Nat.not_lt.mp hbig, by rw [hvalue, Decimal.toDigits_value hcanonical]⟩
  · rintro ⟨hv, rfl⟩
    have hcanonical := Decimal.toDigits_canonical v
    have hlength : (Nat.toDigits 10 v).length ≤ 3 :=
      (Decimal.toDigits_length_le (by decide)).mpr (by omega)
    have hpositive := List.length_pos_iff.mpr hcanonical.nonempty
    have hall : (Nat.toDigits 10 v).all Control.isDigit = true :=
      List.all_eq_true.mpr hcanonical.digits
    rw [if_neg (by rw [not_or, not_or]; exact ⟨by omega, by omega, not_not.mpr hall⟩),
      if_neg (fun h => hcanonical.first h.1 h.2), hvalue, Decimal.value_toDigits, if_neg (by omega)]

theorem dot_not_mem_digits (n : ℕ) : '.' ∉ Nat.toDigits 10 n := by
  intro hin
  exact absurd ((Decimal.toDigits_canonical n).digits '.' hin) (by decide)

theorem quad_eq (a b c d : ℕ) :
    quad a b c d = ['.'].intercalate
      [Nat.toDigits 10 a, Nat.toDigits 10 b, Nat.toDigits 10 c, Nat.toDigits 10 d] := by
  rw [List.intercalate_cons_cons, List.intercalate_cons_cons, List.intercalate_cons_cons,
    List.intercalate_singleton]
  simp [quad]

theorem splitOn_quad (a b c d : ℕ) : (quad a b c d).splitOn '.' =
    [Nat.toDigits 10 a, Nat.toDigits 10 b, Nat.toDigits 10 c, Nat.toDigits 10 d] := by
  rw [quad_eq]
  apply List.splitOn_intercalate
  · simp [dot_not_mem_digits]
  · exact List.cons_ne_nil _ _

theorem serverParse_iff {text : Text} {a b c d : ℕ} : Control.parseIpv4 text = some (a, b, c, d) ↔
    (a ≤ 255 ∧ b ≤ 255 ∧ c ≤ 255 ∧ d ≤ 255) ∧ text = quad a b c d := by
  unfold Control.parseIpv4
  constructor
  · intro h
    split at h
    case h_1 p q r s hsplit =>
      simp only [Option.bind_eq_bind, Option.bind_eq_some_iff, Option.pure_def, Option.some.injEq,
        Prod.mk.injEq] at h
      obtain ⟨_, hp, _, hq, _, hr, _, hs, rfl, rfl, rfl, rfl⟩ := h
      obtain ⟨ha, rfl⟩ := parseOctet_iff.mp hp
      obtain ⟨hb, rfl⟩ := parseOctet_iff.mp hq
      obtain ⟨hc, rfl⟩ := parseOctet_iff.mp hr
      obtain ⟨hd, rfl⟩ := parseOctet_iff.mp hs
      refine ⟨⟨ha, hb, hc, hd⟩, ?_⟩
      rw [quad_eq, ← hsplit, List.intercalate_splitOn]
    case h_2 => cases h
  · rintro ⟨⟨ha, hb, hc, hd⟩, rfl⟩
    rw [splitOn_quad]
    dsimp only
    rw [parseOctet_iff.mpr ⟨ha, rfl⟩, parseOctet_iff.mpr ⟨hb, rfl⟩, parseOctet_iff.mpr ⟨hc, rfl⟩,
      parseOctet_iff.mpr ⟨hd, rfl⟩]
    rfl

def octetList (o : Octets) : List ℕ := [o.1, o.2.1, o.2.2.1, o.2.2.2]

theorem parse_agrees (text : Text) :
    (Control.parseIpv4 text).map octetList = (parseIpv4 (utf8 text)).map octetsOf := by
  cases hserver : Control.parseIpv4 text with
  | some o =>
    obtain ⟨a, b, c, d⟩ := o
    obtain ⟨⟨ha, hb, hc, hd⟩, rfl⟩ := serverParse_iff.mp hserver
    have hclient : parseIpv4 (utf8 (quad a b c d)) = some ([a, b, c, d].foldl appendOctet 0) := by
      rw [parseIpv4_eq_some_iff, utf8_quad, formatIpv4_eq, octetsOf_fold ha hb hc hd]
    rw [hclient, Option.map_some, Option.map_some, octetsOf_fold ha hb hc hd]
    rfl
  | none =>
    cases hclient : parseIpv4 (utf8 text) with
    | none => rfl
    | some address =>
      have htext := parseIpv4_eq_some_iff.mp hclient
      have hquad : text = quad ((address >>> 24).toNat % 256) ((address >>> 16).toNat % 256)
          ((address >>> 8).toNat % 256) (address.toNat % 256) := by
        apply utf8_injective
        rw [htext, formatIpv4_eq, utf8_quad]
        rfl
      rw [serverParse_iff.mpr ⟨⟨by omega, by omega, by omega, by omega⟩, hquad⟩] at hserver
      cases hserver

theorem parse_is_text {bytes : Bytes} {address : U32} (h : parseIpv4 bytes = some address) :
    ∃ text : Text, bytes = utf8 text := by
  have hbytes := parseIpv4_eq_some_iff.mp h
  rw [formatIpv4_eq] at hbytes
  exact ⟨_, hbytes.trans (utf8_quad _ _ _ _).symm⟩

/-! ## Refusals -/

def serverOctets (address : U32) : Octets :=
  ((address >>> 24).toNat % 256, (address >>> 16).toNat % 256, (address >>> 8).toNat % 256,
    address.toNat % 256)

theorem rejectedByHygiene_none (c : Lobby.Candidate) :
    rejectedByHygiene [] c =
      sanitationReject (serverOctets c.endpoint.address) c.endpoint.port.toNat := by
  have haddress := c.endpoint.address.isLt
  have hport : c.endpoint.port = 0 ↔ c.endpoint.port.toNat = 0 := by
    rw [← BitVec.toNat_inj]
    rfl
  have hhigh (n : ℕ) (hn : n < 2 ^ 32) : c.endpoint.address >>> 28 = BitVec.ofNat 32 n ↔
      c.endpoint.address.toNat / 2 ^ 28 = n := by
    rw [← BitVec.toNat_inj, BitVec.toNat_ushiftRight, BitVec.toNat_ofNat, Nat.shiftRight_eq_div_pow,
      Nat.mod_eq_of_lt hn]
  have hfirst (n : ℕ) (hn : n < 2 ^ 32) : c.endpoint.address >>> 24 = BitVec.ofNat 32 n ↔
      c.endpoint.address.toNat / 2 ^ 24 = n := by
    rw [← BitVec.toNat_inj, BitVec.toNat_ushiftRight, BitVec.toNat_ofNat, Nat.shiftRight_eq_div_pow,
      Nat.mod_eq_of_lt hn]
  have hE := hhigh 0xE (by decide)
  have hF := hhigh 0xF (by decide)
  have hzero := hfirst 0 (by decide)
  have hloop := hfirst 127 (by decide)
  have hoctet : (c.endpoint.address >>> 24).toNat = c.endpoint.address.toNat / 2 ^ 24 := by
    rw [BitVec.toNat_ushiftRight, Nat.shiftRight_eq_div_pow]
  rw [Bool.eq_iff_iff]
  unfold rejectedByHygiene sanitationReject serverOctets blocksBroadcast
  simp only [Bool.or_eq_true, decide_eq_true_eq, List.any_nil, Bool.false_eq_true,
    or_false, beq_iff_eq,
    Bool.and_eq_true]
  change ((((c.endpoint.port = 0 ∨ c.endpoint.address >>> 28 = BitVec.ofNat 32 0xE) ∨
    c.endpoint.address >>> 28 = BitVec.ofNat 32 0xF) ∨
    c.endpoint.address >>> 24 = BitVec.ofNat 32 0) ∨
    c.endpoint.address >>> 24 = BitVec.ofNat 32 127) ↔ _
  rw [hport, hE, hF, hzero, hloop, hoctet]
  omega

/-! ## What is kept -/

variable {own : List OwnSubnet} {received : List Lobby.Candidate}

theorem sanitizeReceivedCandidates_eq (received : List Lobby.Candidate) (own : List OwnSubnet) :
    sanitizeReceivedCandidates received own =
      (firsts Lobby.Candidate.endpoint (received.filter (!rejectedByHygiene own ·))).take
        maxCandidates := by
  have hfold (out : List Lobby.Candidate) : received.foldl (keepCandidate own) out =
      (received.filter (!rejectedByHygiene own ·)).foldl
        (keepNew Lobby.Candidate.endpoint) out := by
    rw [List.foldl_filter]
    congr 1
    funext out c
    unfold keepCandidate keepNew
    cases rejectedByHygiene own c <;> rfl
  unfold sanitizeReceivedCandidates
  rw [hfold, foldl_keepNew]

/-- A clean list: it goes through unchanged. -/
structure Clean (own : List OwnSubnet) (list : List Lobby.Candidate) : Prop where
  passes : ∀ c ∈ list, rejectedByHygiene own c = false
  distinct : (list.map Lobby.Candidate.endpoint).Nodup
  short : list.length ≤ maxCandidates

theorem Clean.unchanged (h : Clean own received) :
    sanitizeReceivedCandidates received own = received := by
  have hfilter : received.filter (!rejectedByHygiene own ·) = received := by
    rw [List.filter_eq_self]
    intro c hc
    rw [h.passes c hc]
    rfl
  rw [sanitizeReceivedCandidates_eq, hfilter, firsts_of_nodup h.distinct,
    List.take_of_length_le h.short]

theorem sanitized_clean (received : List Lobby.Candidate) (own : List OwnSubnet) :
    Clean own (sanitizeReceivedCandidates received own) := by
  rw [sanitizeReceivedCandidates_eq]
  refine ⟨fun c hc => ?_, ?_, ?_⟩
  · have hmem := (List.mem_filter.mp ((firsts_sublist _).mem (List.mem_of_mem_take hc))).2
    simpa using hmem
  · rw [List.map_take]
    exact (firsts_nodup _).sublist (List.take_sublist _ _)
  · rw [List.length_take]
    exact Nat.min_le_left _ _

theorem rejected_of_none {c : Lobby.Candidate} (h : rejectedByHygiene own c = false) :
    rejectedByHygiene [] c = false := by
  unfold rejectedByHygiene at h ⊢
  rw [Bool.or_eq_false_iff] at h ⊢
  exact ⟨h.1, rfl⟩

theorem Clean.none (h : Clean own received) : Clean [] received :=
  ⟨fun c hc => rejected_of_none (h.passes c hc), h.distinct, h.short⟩

/-! ## What the server has stored -/

def clientKind : Control.CandidateKind → Lobby.CandidateKind
  | .local => .local
  | .reflexive => .reflexive

def clientCandidate (c : Control.Candidate) : Option Lobby.Candidate :=
  (parseIpv4 (utf8 c.ip)).map fun address => ⟨⟨address, BitVec.ofNat 16 c.port⟩, clientKind c.kind⟩

theorem octetList_injective {o o' : Octets} (h : octetList o = octetList o') : o = o' := by
  obtain ⟨a, b, c, d⟩ := o
  obtain ⟨a', b', c', d'⟩ := o'
  unfold octetList at h
  simp only [List.cons.injEq, and_true] at h
  obtain ⟨rfl, rfl, rfl, rfl⟩ := h
  rfl

theorem clientCandidate_of_parse {c : Control.Candidate} {o : Octets}
    (h : Control.parseIpv4 c.ip = some o) :
    ∃ address, clientCandidate c = some ⟨⟨address, BitVec.ofNat 16 c.port⟩, clientKind c.kind⟩ ∧
      serverOctets address = o := by
  have hagrees := parse_agrees c.ip
  rw [h, Option.map_some] at hagrees
  obtain ⟨address, hclient, hoctets⟩ := Option.map_eq_some_iff.mp hagrees.symm
  refine ⟨address, ?_, octetList_injective hoctets⟩
  unfold clientCandidate
  rw [hclient, Option.map_some]

theorem stored_clean {stored : List Control.Candidate} (h : Control.CleanCandidates stored) :
    ∃ received, List.Forall₂ (fun c r => clientCandidate c = some r) stored received ∧
      Clean [] received := by
  have hread : ∀ c ∈ stored, ∃ r, clientCandidate c = some r ∧ rejectedByHygiene [] r = false ∧
      r.endpoint.port.toNat = c.port ∧
      Control.parseIpv4 c.ip = some (serverOctets r.endpoint.address) := by
    intro c hc
    obtain ⟨hport, o, ho, hpass⟩ := h.sound c hc
    obtain ⟨address, hclient, rfl⟩ := clientCandidate_of_parse ho
    have hword : (BitVec.ofNat 16 c.port).toNat = c.port := by
      rw [BitVec.toNat_ofNat]
      exact Nat.mod_eq_of_lt (by omega)
    refine ⟨_, hclient, ?_, hword, ho⟩
    rw [rejectedByHygiene_none]
    dsimp only
    rw [hword, hpass]
  have hnodup := h.nodup
  have hshort := h.short
  have hbuild : ∃ received, List.Forall₂ (fun c r => clientCandidate c = some r) stored received ∧
      (∀ r ∈ received, rejectedByHygiene [] r = false) ∧
      received.map (fun r => (some (serverOctets r.endpoint.address), r.endpoint.port.toNat)) =
        stored.map fun c => (Control.parseIpv4 c.ip, c.port) := by
    clear h hnodup hshort
    induction stored with
    | nil => exact ⟨[], .nil, by simp, rfl⟩
    | cons c stored ih =>
      obtain ⟨⟨r, hr, hpass, hport, hoctets⟩, hrest⟩ := List.forall_mem_cons.mp hread
      obtain ⟨received, hall, hclean, hkeys⟩ := ih hrest
      refine ⟨r :: received, .cons hr hall, List.forall_mem_cons.mpr ⟨hpass, hclean⟩, ?_⟩
      rw [List.map_cons, List.map_cons, hkeys, hport, hoctets]
  obtain ⟨received, hall, hpass, hkeys⟩ := hbuild
  refine ⟨received, hall, hpass, ?_, ?_⟩
  · rw [← hkeys] at hnodup
    apply List.Nodup.of_map (fun e : Endpoint => (some (serverOctets e.address), e.port.toNat))
    rwa [List.map_map]
  · rw [← hall.length_eq]
    exact hshort

theorem sanitizeCandidates_length {items : List Control.Json} {stored : List Control.Candidate}
    {rejected : ℕ} (h : sanitizeCandidates (some (.arr items)) = .ok (stored, rejected)) :
    stored.length + rejected ≤ items.length := by
  unfold sanitizeCandidates Control.checkShape at h
  dsimp only at h
  split_ifs at h with hmany
  · cases h
  · cases hchecked : items.mapM Control.checkShapeItem with
    | error e => simp [hchecked, bind, Except.bind] at h
    | ok checked =>
      simp only [hchecked, bind, Except.bind] at h
      split_ifs at h with hnone
      obtain ⟨rfl, rfl⟩ := Prod.mk.inj (Except.ok.inj h)
      obtain ⟨hlength, hmem⟩ := Control.mapM_ok_length hchecked
      rw [← hlength]
      apply (Control.sanitizeLoop_spec checked [] ?_).1
      intro x hx
      obtain ⟨item, -, hitem⟩ := hmem x hx
      exact (Control.checkShapeItem_ok hitem).1

/-- Both sides agree on addresses and on refusals, the client leaves a stored list as it is, filters
a list only once, and the server accounts for no more candidates than were sent. -/
theorem hygiene_agreement :
    (∀ text : Text, (Control.parseIpv4 text).map octetList = (parseIpv4 (utf8 text)).map octetsOf) ∧
    (∀ (bytes : Bytes) (address : U32), parseIpv4 bytes = some address →
      ∃ text : Text, bytes = utf8 text) ∧
    (∀ c : Lobby.Candidate, rejectedByHygiene [] c =
      sanitationReject (serverOctets c.endpoint.address) c.endpoint.port.toNat) ∧
    (∀ raw stored rejected, sanitizeCandidates raw = .ok (stored, rejected) →
      ∃ received, List.Forall₂ (fun c r => clientCandidate c = some r) stored received ∧
        sanitizeReceivedCandidates received [] = received) ∧
    (∀ received own, sanitizeReceivedCandidates (sanitizeReceivedCandidates received own) own =
      sanitizeReceivedCandidates received own) ∧
    (∀ received own, sanitizeReceivedCandidates received own =
      (firsts Lobby.Candidate.endpoint (received.filter (!rejectedByHygiene own ·))).take
        maxCandidates ∧
      (sanitizeReceivedCandidates received own).Sublist received) ∧
    (∀ received own, sanitizeReceivedCandidates (sanitizeReceivedCandidates received own) [] =
      sanitizeReceivedCandidates received own) ∧
    ∀ items stored rejected, sanitizeCandidates (some (.arr items)) = .ok (stored, rejected) →
      stored.length + rejected ≤ items.length ∧ 1 ≤ stored.length := by
  refine ⟨parse_agrees, fun bytes address h => parse_is_text h, rejectedByHygiene_none,
    fun raw stored rejected h => ?_, fun received own => (sanitized_clean received own).unchanged,
    fun received own => ⟨sanitizeReceivedCandidates_eq received own, ?_⟩,
    fun received own => (sanitized_clean received own).none.unchanged,
      fun items stored rejected h => ?_⟩
  · obtain ⟨received, hall, hclean⟩ := stored_clean (Control.sanitizeCandidates_ok h).1
    exact ⟨received, hall, hclean.unchanged⟩
  · rw [sanitizeReceivedCandidates_eq]
    exact (List.take_sublist _ _).trans ((firsts_sublist _).trans List.filter_sublist)
  · have hnonempty := (Control.sanitizeCandidates_ok h).1.nonempty
    exact ⟨sanitizeCandidates_length h, List.length_pos_iff.mpr hnonempty⟩

end Sangtachi.Hygiene
