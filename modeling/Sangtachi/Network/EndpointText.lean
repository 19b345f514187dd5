import Sangtachi.Core.Decimal
import Sangtachi.Core.Lines
import Sangtachi.Lobby.Requests

/-! # Addresses and endpoints as texts

An address has one text that is accepted, and so has an endpoint. -/
namespace Sangtachi.Network

open Sangtachi.BigEndian Sangtachi.Peer
open Sangtachi.Lobby (Bytes decimal formatIpv4 endpointText)
open Sangtachi.Lines

def dot : U8 := 0x2E
def colon : U8 := 0x3A

def isAsciiDigit (c : U8) : Bool := 0x30 ≤ c && c ≤ 0x39

/-- A decimal of at most `maxLength` digits without a leading zero, up to `limit`. -/
def parseDecimal (maxLength limit : ℕ) (text : Bytes) : Option ℕ :=
  if text = [] ∨ maxLength < text.length then none
  else if 1 < text.length ∧ text.head? = some 0x30 then none
  else if ¬ text.all isAsciiDigit then none
  else
    let value := text.foldl (fun n c => n * 10 + (c.toNat - 0x30)) 0
    if limit < value then none else some value

def parseOctet (text : Bytes) : Option ℕ := parseDecimal 3 255 text

def parsePort (text : Bytes) : Option U16 := (parseDecimal 5 65535 text).map (BitVec.ofNat 16)

def appendOctet (address : U32) (octet : ℕ) : U32 := (address <<< 8) ||| BitVec.ofNat 32 octet

/-- The octets in what is left of the text, with `more` of them behind the next one. -/
def parseOctets : ℕ → U32 → Bytes → Option U32
  | 0, address, rest =>
    match find [dot] rest with
    | some _ => none
    | none => (parseOctet rest).map (appendOctet address)
  | more + 1, address, rest =>
    match find [dot] rest with
    | none => none
    | some place =>
      match parseOctet (rest.take place) with
      | none => none
      | some octet => parseOctets more (appendOctet address octet) (rest.drop (place + 1))

def parseIpv4 (text : Bytes) : Option U32 := parseOctets 3 0 text

def parseEndpoint (text : Bytes) : Option Endpoint :=
  match find [colon] text with
  | none => none
  | some place =>
    match parseIpv4 (text.take place) with
    | none => none
    | some address =>
      match parsePort (text.drop (place + 1)) with
      | none => none
      | some port => some ⟨address, port⟩

/-! ## Decimals -/

def byteOf (c : Char) : U8 := BitVec.ofNat 8 c.toNat

def charOf (c : U8) : Char := Char.ofNat c.toNat

theorem decimal_eq (n : ℕ) : decimal n = (Nat.toDigits 10 n).map byteOf := by
  unfold decimal Lobby.ascii
  rw [Nat.toString_eq_repr, Nat.toList_repr]
  rfl

theorem byteOf_charOf {c : U8} (h : isAsciiDigit c = true) :
    byteOf (charOf c) = c ∧ Decimal.isDigit (charOf c) = true ∧ (charOf c).toNat = c.toNat := by
  revert c
  decide +kernel

theorem digit_byte {c : Char} (h : Decimal.isDigit c = true) :
    isAsciiDigit (byteOf c) = true ∧ charOf (byteOf c) = c := by
  obtain ⟨hten, hc⟩ := Decimal.digitChar_toNat h
  have hall : ∀ d < 10, isAsciiDigit (byteOf (Nat.digitChar d)) = true ∧
      charOf (byteOf (Nat.digitChar d)) = Nat.digitChar d := by decide +kernel
  rw [← hc]
  exact hall _ hten

theorem decimal_digits (n : ℕ) : ∀ c ∈ decimal n, isAsciiDigit c = true := by
  rw [decimal_eq]
  intro c hc
  obtain ⟨d, hd, rfl⟩ := List.mem_map.mp hc
  exact (digit_byte ((Decimal.toDigits_canonical n).digits d hd)).1

theorem chars_value {text : Bytes} (h : ∀ c ∈ text, isAsciiDigit c = true) :
    text.foldl (fun n c => n * 10 + (c.toNat - 0x30)) 0 = Decimal.value (text.map charOf) := by
  unfold Decimal.value
  rw [List.foldl_map]
  apply List.foldl_ext
  intro n c hc
  rw [(byteOf_charOf (h c hc)).2.2]
  rfl

theorem parseDecimal_eq_some_iff {maxLength limit v : ℕ} {text : Bytes} (hlength : 0 < maxLength)
    (hlimit : limit < 10 ^ maxLength) :
    parseDecimal maxLength limit text = some v ↔ v ≤ limit ∧ text = decimal v := by
  unfold parseDecimal
  dsimp only
  constructor
  · intro h
    split_ifs at h with hsize hzero hdigits hbig
    cases h
    have hall : ∀ c ∈ text, isAsciiDigit c = true := List.all_eq_true.mp hdigits
    refine ⟨Nat.not_lt.mp hbig, ?_⟩
    have hcanonical : Decimal.Canonical (text.map charOf) := by
      refine ⟨fun hempty => hsize (.inl (List.map_eq_nil_iff.mp hempty)), fun c hc => ?_,
        fun hlong hhead => ?_⟩
      · obtain ⟨d, hd, rfl⟩ := List.mem_map.mp hc
        exact (byteOf_charOf (hall d hd)).2.1
      · rw [List.length_map] at hlong
        rw [List.head?_map] at hhead
        obtain ⟨c, hc, hchar⟩ := Option.map_eq_some_iff.mp hhead
        have hbyte := (byteOf_charOf (hall c (List.mem_of_head? hc))).1
        rw [hchar] at hbyte
        apply hzero
        refine ⟨hlong, ?_⟩
        rw [hc, ← hbyte]
        rfl
    have hback : (text.map charOf).map byteOf = text := by
      rw [List.map_map]
      conv_rhs => rw [← List.map_id text]
      apply List.map_congr_left
      intro c hc
      exact (byteOf_charOf (hall c hc)).1
    rw [decimal_eq, chars_value hall, Decimal.toDigits_value hcanonical, hback]
  · rintro ⟨hv, rfl⟩
    have hcanonical := Decimal.toDigits_canonical v
    have hchars : (decimal v).map charOf = Nat.toDigits 10 v := by
      rw [decimal_eq, List.map_map]
      conv_rhs => rw [← List.map_id (Nat.toDigits 10 v)]
      apply List.map_congr_left
      intro c hc
      exact (digit_byte (hcanonical.digits c hc)).2
    have hsize : (decimal v).length = (Nat.toDigits 10 v).length := by
      rw [decimal_eq, List.length_map]
    have hshort : (Nat.toDigits 10 v).length ≤ maxLength :=
      (Decimal.toDigits_length_le hlength).mpr (by omega)
    have hnonempty : decimal v ≠ [] := by
      rw [decimal_eq]
      exact fun h => hcanonical.nonempty (List.map_eq_nil_iff.mp h)
    rw [if_neg (not_or.mpr ⟨hnonempty, by omega⟩), if_neg, if_neg,
      chars_value (decimal_digits v), hchars,
      Decimal.value_toDigits, if_neg (by omega)]
    · exact not_not.mpr (List.all_eq_true.mpr (decimal_digits v))
    · rintro ⟨hlong, hhead⟩
      rw [hsize] at hlong
      apply hcanonical.first hlong
      rw [← hchars, List.head?_map, hhead]
      rfl

theorem decimal_injective {i j : ℕ} (h : decimal i = decimal j) : i = j := by
  have hread : ∀ v, v ≤ i + j → parseDecimal (i + j + 1) (i + j) (decimal v) = some v := by
    intro v hv
    have hlimit : i + j < 10 ^ (i + j + 1) :=
      (Nat.lt_succ_self _).trans (Nat.lt_pow_self (by decide))
    exact (parseDecimal_eq_some_iff (Nat.succ_pos _) hlimit).mpr ⟨hv, rfl⟩
  have hi := hread i (Nat.le_add_right _ _)
  rw [h, hread j (Nat.le_add_left _ _)] at hi
  exact (Option.some.inj hi).symm

theorem not_mem_decimal {n : ℕ} {c : U8} (h : isAsciiDigit c = false) : c ∉ decimal n := by
  intro hin
  rw [decimal_digits n c hin] at h
  cases h

/-! ## Addresses -/

theorem find_piece {c : U8} {front : Bytes} (h : c ∉ front) (rest : Bytes) :
    find [c] (front ++ c :: rest) = some front.length := by
  have hall : ∀ x ∈ front, decide (x ≠ c) = true := by
    intro x hx
    exact decide_eq_true (fun heq => h (heq ▸ hx))
  rw [find_singleton, if_pos (List.mem_append_right _ List.mem_cons_self),
    List.takeWhile_append_of_pos hall]
  simp

theorem find_piece_none {c : U8} {text : Bytes} : find [c] text = none ↔ c ∉ text := by
  rw [find_singleton]
  by_cases h : c ∈ text
  · simp [h]
  · simp [h]

theorem find_piece_parts {c : U8} {text : Bytes} {place : ℕ} (h : find [c] text = some place) :
    text = text.take place ++ c :: text.drop (place + 1) := by
  have hparts := (find_firstAt h).eq_append
  rwa [List.append_assoc] at hparts

def octetsText (octets : List ℕ) : Bytes := [dot].intercalate (octets.map decimal)

theorem octetsText_cons (octet : ℕ) {octets : List ℕ} (h : octets ≠ []) :
    octetsText (octet :: octets) = decimal octet ++ dot :: octetsText octets := by
  unfold octetsText
  rw [List.map_cons, List.intercalate_cons_of_ne_nil (fun hnil => h (List.map_eq_nil_iff.mp hnil)),
    List.append_assoc]
  rfl

theorem octetsText_singleton (octet : ℕ) : octetsText [octet] = decimal octet :=
  List.intercalate_singleton

theorem parseOctet_eq_some_iff {text : Bytes} {octet : ℕ} :
    parseOctet text = some octet ↔ octet ≤ 255 ∧ text = decimal octet :=
  parseDecimal_eq_some_iff (by decide) (by decide)

theorem dot_not_mem (octet : ℕ) : dot ∉ decimal octet := not_mem_decimal rfl

theorem parseOctets_eq_some_iff {more : ℕ} {address result : U32} {text : Bytes} :
    parseOctets more address text = some result ↔
      ∃ octets : List ℕ, octets.length = more + 1 ∧ (∀ o ∈ octets, o ≤ 255) ∧
        text = octetsText octets ∧
        result = octets.foldl appendOctet address := by
  induction more generalizing address text with
  | zero =>
    unfold parseOctets
    constructor
    · intro h
      cases hfind : find [dot] text with
      | some place => rw [hfind] at h; cases h
      | none =>
        rw [hfind] at h
        obtain ⟨octet, hoctet, rfl⟩ := Option.map_eq_some_iff.mp h
        obtain ⟨hsmall, htext⟩ := parseOctet_eq_some_iff.mp hoctet
        refine ⟨[octet], rfl, ?_, ?_, rfl⟩
        · rwa [List.forall_mem_singleton]
        · rw [octetsText_singleton, htext]
    · rintro ⟨octets, hlength, hsmall, rfl, rfl⟩
      obtain ⟨octet, rfl⟩ := List.length_eq_one_iff.mp hlength
      rw [octetsText_singleton, find_piece_none.mpr (dot_not_mem octet)]
      dsimp only
      rw [parseOctet_eq_some_iff.mpr ⟨hsmall octet List.mem_cons_self, rfl⟩]
      rfl
  | succ more ih =>
    unfold parseOctets
    constructor
    · intro h
      cases hfind : find [dot] text with
      | none => rw [hfind] at h; cases h
      | some place =>
        rw [hfind] at h
        dsimp only at h
        cases hoctet : parseOctet (text.take place) with
        | none => rw [hoctet] at h; cases h
        | some octet =>
          rw [hoctet] at h
          dsimp only at h
          obtain ⟨octets, hlength, hsmall, hrest, hresult⟩ := ih.mp h
          obtain ⟨hoctet, htake⟩ := parseOctet_eq_some_iff.mp hoctet
          have hne : octets ≠ [] := fun hnil => by rw [hnil] at hlength; cases hlength
          refine ⟨octet :: octets, by rw [List.length_cons, hlength], ?_, ?_, hresult⟩
          · exact List.forall_mem_cons.mpr ⟨hoctet, hsmall⟩
          · rw [octetsText_cons octet hne, ← htake, ← hrest]
            exact find_piece_parts hfind
    · rintro ⟨octets, hlength, hsmall, rfl, rfl⟩
      cases octets with
      | nil => cases hlength
      | cons octet octets =>
        have hne : octets ≠ [] := fun hnil => by rw [hnil] at hlength; cases hlength
        obtain ⟨hoctet, hrest⟩ := List.forall_mem_cons.mp hsmall
        rw [octetsText_cons octet hne, find_piece (dot_not_mem octet)]
        dsimp only
        have hdrop : (decimal octet ++ dot :: octetsText octets).drop ((decimal octet).length + 1) =
            octetsText octets := by
          rw [← List.drop_drop, List.drop_left]
          rfl
        rw [List.take_left, parseOctet_eq_some_iff.mpr ⟨hoctet, rfl⟩, hdrop]
        dsimp only
        rw [ih]
        exact ⟨octets, Nat.succ.inj hlength, hrest, rfl, rfl⟩

def octetsOf (address : U32) : List ℕ :=
  [(address >>> 24).toNat % 256, (address >>> 16).toNat % 256, (address >>> 8).toNat % 256,
    address.toNat % 256]

theorem formatIpv4_eq (address : U32) : formatIpv4 address = octetsText (octetsOf address) := by
  have hdot : Lobby.ascii "." = [dot] := rfl
  unfold octetsOf formatIpv4
  rw [octetsText_cons _ (by simp), octetsText_cons _ (by simp), octetsText_cons _ (by simp),
    octetsText_singleton,
    hdot]
  simp only [List.append_assoc, List.cons_append, List.nil_append]

theorem appendOctet_toNat {address : U32} {octet : ℕ} (h : octet ≤ 255) :
    (appendOctet address octet).toNat = address.toNat % 2 ^ 24 * 256 + octet := by
  unfold appendOctet
  have hor := Nat.two_pow_add_eq_or_of_lt (show octet < 2 ^ 8 by omega) (address.toNat % 2 ^ 24)
  rw [BitVec.toNat_or, BitVec.toNat_shiftLeft, BitVec.toNat_ofNat, Nat.shiftLeft_eq,
    Nat.mod_eq_of_lt (show octet < 2 ^ 32 by omega)]
  have hshift : address.toNat * 2 ^ 8 % 2 ^ 32 = 2 ^ 8 * (address.toNat % 2 ^ 24) := by omega
  rw [hshift, ← hor]
  omega

theorem fold_octets {a b c d : ℕ} (ha : a ≤ 255) (hb : b ≤ 255) (hc : c ≤ 255) (hd : d ≤ 255) :
    ([a, b, c, d].foldl appendOctet 0).toNat = ((a * 256 + b) * 256 + c) * 256 + d := by
  simp only [List.foldl_cons, List.foldl_nil]
  rw [appendOctet_toNat hd, appendOctet_toNat hc, appendOctet_toNat hb, appendOctet_toNat ha]
  have hzero : (0 : U32).toNat = 0 := rfl
  omega

theorem fold_octetsOf (address : U32) : (octetsOf address).foldl appendOctet 0 = address := by
  apply BitVec.eq_of_toNat_eq
  have hlt := address.isLt
  unfold octetsOf
  rw [fold_octets (by omega) (by omega) (by omega) (by omega)]
  simp only [BitVec.toNat_ushiftRight, Nat.shiftRight_eq_div_pow]
  omega

theorem octetsOf_fold {a b c d : ℕ} (ha : a ≤ 255) (hb : b ≤ 255) (hc : c ≤ 255) (hd : d ≤ 255) :
    octetsOf ([a, b, c, d].foldl appendOctet 0) = [a, b, c, d] := by
  have hnat := fold_octets ha hb hc hd
  unfold octetsOf
  simp only [BitVec.toNat_ushiftRight, Nat.shiftRight_eq_div_pow]
  rw [hnat]
  simp only [List.cons.injEq, and_true]
  omega

theorem parseIpv4_eq_some_iff {text : Bytes} {address : U32} :
    parseIpv4 text = some address ↔ text = formatIpv4 address := by
  unfold parseIpv4
  rw [parseOctets_eq_some_iff, formatIpv4_eq]
  constructor
  · rintro ⟨octets, hlength, hsmall, rfl, rfl⟩
    obtain ⟨a, b, c, d, rfl⟩ : ∃ a b c d, octets = [a, b, c, d] := by
      rcases octets with _ | ⟨a, _ | ⟨b, _ | ⟨c, _ | ⟨d, _ | ⟨e, rest⟩⟩⟩⟩⟩ <;> simp at hlength
      exact ⟨a, b, c, d, rfl⟩
    rw [octetsOf_fold (hsmall a (by simp)) (hsmall b (by simp)) (hsmall c (by simp))
      (hsmall d (by simp))]
  · rintro rfl
    refine ⟨octetsOf address, rfl, ?_, rfl, (fold_octetsOf address).symm⟩
    unfold octetsOf
    simp only [List.forall_mem_cons, List.not_mem_nil, false_imp_iff, implies_true, and_true]
    omega

/-! ## Endpoints -/

theorem parsePort_eq_some_iff {text : Bytes} {port : U16} :
    parsePort text = some port ↔ text = decimal port.toNat := by
  have hlt := port.isLt
  unfold parsePort
  rw [Option.map_eq_some_iff]
  constructor
  · rintro ⟨n, hn, rfl⟩
    obtain ⟨hsmall, htext⟩ := (parseDecimal_eq_some_iff (by decide) (by decide)).mp hn
    rw [BitVec.toNat_ofNat, Nat.mod_eq_of_lt (by omega), htext]
  · intro htext
    exact ⟨port.toNat, (parseDecimal_eq_some_iff (by decide) (by decide)).mpr ⟨by omega, htext⟩,
      BitVec.eq_of_toNat_eq ((BitVec.toNat_ofNat _ _).trans (Nat.mod_eq_of_lt hlt))⟩

theorem colon_not_mem (address : U32) : colon ∉ formatIpv4 address := by
  have hdecimal (n : ℕ) : colon ∉ decimal n := not_mem_decimal rfl
  have hdot : colon ∉ Lobby.ascii "." := by decide
  unfold formatIpv4
  simp only [List.mem_append, not_or]
  exact ⟨⟨⟨⟨⟨⟨hdecimal _, hdot⟩, hdecimal _⟩, hdot⟩, hdecimal _⟩, hdot⟩, hdecimal _⟩

theorem endpointText_eq (e : Endpoint) :
    endpointText e = formatIpv4 e.address ++ colon :: decimal e.port.toNat := by
  unfold endpointText
  rw [List.append_assoc]
  rfl

theorem parseEndpoint_eq_some_iff {text : Bytes} {e : Endpoint} :
    parseEndpoint text = some e ↔ text = endpointText e := by
  rw [endpointText_eq]
  unfold parseEndpoint
  constructor
  · intro h
    cases hfind : find [colon] text with
    | none => rw [hfind] at h; cases h
    | some place =>
      rw [hfind] at h
      dsimp only at h
      cases haddress : parseIpv4 (text.take place) with
      | none => rw [haddress] at h; cases h
      | some address =>
        rw [haddress] at h
        dsimp only at h
        cases hport : parsePort (text.drop (place + 1)) with
        | none => rw [hport] at h; cases h
        | some port =>
          rw [hport] at h
          cases h
          rw [← parseIpv4_eq_some_iff.mp haddress, ← parsePort_eq_some_iff.mp hport]
          exact find_piece_parts hfind
  · rintro rfl
    rw [find_piece (colon_not_mem e.address)]
    dsimp only
    have hdrop : (formatIpv4 e.address ++ colon :: decimal e.port.toNat).drop
      ((formatIpv4 e.address).length + 1) =
        decimal e.port.toNat := by
      rw [← List.drop_drop, List.drop_left]
      rfl
    rw [List.take_left, parseIpv4_eq_some_iff.mpr rfl, hdrop, parsePort_eq_some_iff.mpr rfl]

/-- Addresses and endpoints are read back, and no other text stands for them. -/
theorem endpoint_text_canonical :
    (∀ address port, parseIpv4 (formatIpv4 address) = some address ∧
      parseEndpoint (endpointText ⟨address, port⟩) = some ⟨address, port⟩) ∧
    (∀ text address, parseIpv4 text = some address → formatIpv4 address = text) ∧
    ∀ text e, parseEndpoint text = some e → endpointText e = text := by
  refine ⟨fun address port => ⟨parseIpv4_eq_some_iff.mpr rfl, parseEndpoint_eq_some_iff.mpr rfl⟩,
    fun text address h => ?_, fun text e h => ?_⟩
  · exact (parseIpv4_eq_some_iff.mp h).symm
  · exact (parseEndpoint_eq_some_iff.mp h).symm

example : parseEndpoint (Lobby.ascii "192.168.0.10:5000") = some ⟨0xC0A8000A, 5000⟩ := by
  decide +kernel

example : parseIpv4 (Lobby.ascii "192.168.00.1") = none := by decide +kernel

end Sangtachi.Network
