import Sangtachi.Network.Stun

/-! # What the STUN parser accepts

A response is a header and attributes that tile the rest of the datagram. -/
namespace Sangtachi.Stun

open Sangtachi.BigEndian
open Sangtachi.Peer (Endpoint)

/-! ## Reads inside the buffer -/

theorem byteAt_inside {bytes : List U8} {offset : ℕ} (h : offset < bytes.length) :
    byteAt bytes offset = .ok (read8 bytes offset) := by
  unfold byteAt read8
  rw [List.getD_eq_getElem?_getD, List.getElem?_eq_getElem h]
  rfl

theorem readU16_inside {bytes : List U8} {offset : ℕ} (h : offset + 2 ≤ bytes.length) :
    readU16 bytes offset = .ok (read16 bytes offset) := by
  unfold readU16
  rw [byteAt_inside (by omega), byteAt_inside (by omega)]
  rfl

theorem readU32_inside {bytes : List U8} {offset : ℕ} (h : offset + 4 ≤ bytes.length) :
    readU32 bytes offset = .ok (read32 bytes offset) := by
  unfold readU32
  rw [byteAt_inside (by omega), byteAt_inside (by omega), byteAt_inside (by omega),
    byteAt_inside (by omega)]
  rfl

theorem subspan_inside {bytes : List U8} {offset count : ℕ} (h : offset + count ≤ bytes.length) :
    subspan bytes offset count = .ok ((bytes.drop offset).take count) := if_pos h

def transactionIdOf (datagram : List U8) : TransactionId :=
  Vector.ofFn fun i => read8 datagram (8 + i)

theorem readTransactionId_loop {datagram : List U8} (h : stunHeaderSize ≤ datagram.length) {k : ℕ}
    (hk : k ≤ 12) :
    (List.range k).foldlM (fun (id : TransactionId) i => do
      return id.setIfInBounds i (← byteAt datagram (8 + i))) (Vector.replicate 12 0) =
      .ok (Vector.ofFn fun i => if i.val < k then read8 datagram (8 + i) else 0) := by
  induction k with
  | zero =>
    simp only [List.range_zero, List.foldlM_nil]
    apply congrArg Except.ok
    apply Vector.ext
    intro i hi
    simp
  | succ k ih =>
    unfold stunHeaderSize at h
    rw [List.range_succ, List.foldlM_append, ih (by omega)]
    have hbyte : byteAt datagram (8 + k) = .ok (read8 datagram (8 + k)) := byteAt_inside (by omega)
    simp only [List.foldlM_cons, List.foldlM_nil, hbyte]
    apply congrArg Except.ok
    apply Vector.ext
    intro i hi
    rw [Vector.getElem_setIfInBounds, Vector.getElem_ofFn, Vector.getElem_ofFn]
    by_cases heq : k = i
    · subst heq
      simp
    · rw [if_neg heq]
      have hlt : i < k ↔ i < k + 1 := by omega
      simp only [hlt]

theorem readTransactionId_inside {datagram : List U8} (h : stunHeaderSize ≤ datagram.length) :
    readTransactionId datagram = .ok (transactionIdOf datagram) := by
  unfold readTransactionId
  rw [readTransactionId_loop h (Nat.le_refl _)]
  apply congrArg Except.ok
  apply Vector.ext
  intro i hi
  simp [transactionIdOf]

theorem transactionIdOf_toList {datagram : List U8} (h : stunHeaderSize ≤ datagram.length) :
    (transactionIdOf datagram).toList = (datagram.drop 8).take 12 := by
  unfold stunHeaderSize at h
  apply List.ext_getElem
  · simp only [Vector.length_toList, List.length_take, List.length_drop]
    omega
  · intro i hi hi'
    have hlt : 8 + i < datagram.length := by
      rw [Vector.length_toList] at hi
      omega
    simp [transactionIdOf, read8, List.getD_eq_getElem?_getD, hlt]

theorem hasStunLeadingBits_inside {datagram : List U8} (h : stunHeaderSize ≤ datagram.length) :
    hasStunLeadingBits datagram = .ok (decide (read8 datagram 0 &&& 0xC0 = 0x00)) := by
  unfold stunHeaderSize at h
  unfold hasStunLeadingBits
  rw [byteAt_inside (by omega)]
  rfl

theorem hasStunCookie_inside {datagram : List U8} (h : stunHeaderSize ≤ datagram.length) :
    hasStunCookie datagram = .ok (decide (read32 datagram 4 = stunCookie)) := by
  unfold stunHeaderSize at h
  unfold hasStunCookie
  rw [readU32_inside (by omega)]
  rfl

theorem paddedSize_eq (valueLength : U16) :
    paddedSize valueLength = (valueLength.toNat + 3) / 4 * 4 := by
  have hclear : ∀ x : U64, x &&& ~~~3#64 = (x >>> 2) <<< 2 := by
    intro x
    apply BitVec.eq_of_getLsbD_eq
    intro i hi
    simp only [BitVec.getLsbD_and, BitVec.getLsbD_not, BitVec.getLsbD_shiftLeft,
      BitVec.getLsbD_ushiftRight]
    by_cases hlow : i < 2
    · interval_cases i <;> simp
    · have hbit : (3#64).getLsbD i = false := by
        interval_cases i <;> first | omega | rfl
      have hadd : 2 + (i - 2) = i := by omega
      rw [hbit]
      simp [hlow, hi, hadd]
  have hlt := valueLength.isLt
  unfold paddedSize
  rw [hclear, BitVec.toNat_shiftLeft, BitVec.toNat_ushiftRight, BitVec.toNat_add,
    BitVec.toNat_setWidth,
    Nat.shiftLeft_eq, Nat.shiftRight_eq_div_pow]
  simp only [BitVec.toNat_ofNat]
  omega

/-! ## Attributes -/

/-- An attribute of a response: its value, and the padding up to the next multiple of four. -/
structure Attribute where
  type : U16
  value : List U8
  padding : List U8
  fits : value.length < 65536
  padded : (value.length + padding.length) % 4 = 0 ∧ padding.length < 4

def Attribute.bytes (a : Attribute) : List U8 :=
  write16 a.type ++ write16 (BitVec.ofNat 16 a.value.length) ++ a.value ++ a.padding

/-- The attributes lie side by side and fill the bytes. -/
def Tiles (rest : List U8) (attrs : List Attribute) : Prop := rest = attrs.flatMap Attribute.bytes

theorem Attribute.length_bytes (a : Attribute) :
    a.bytes.length = attrHeaderSize + (a.value.length + 3) / 4 * 4 := by
  have hpadded := a.padded
  simp only [Attribute.bytes, List.length_append, length_write16, attrHeaderSize]
  omega

theorem Attribute.lengthField (a : Attribute) :
    (BitVec.ofNat 16 a.value.length).toNat = a.value.length := by
  have hfits := a.fits
  rw [BitVec.toNat_ofNat]
  omega

theorem attribute_front {rest : List U8} (hhead : attrHeaderSize ≤ rest.length)
    (hall : (((read16 rest 2).toNat + 3) / 4 * 4) ≤ rest.length - attrHeaderSize) :
    ∃ a : Attribute, a.type = read16 rest 0 ∧
      a.value = (rest.drop attrHeaderSize).take (read16 rest 2).toNat ∧
      rest = a.bytes ++ rest.drop (attrHeaderSize + ((read16 rest 2).toNat + 3) / 4 * 4) := by
  unfold attrHeaderSize at *
  have hlt := (read16 rest 2).isLt
  have hlen : ((rest.drop 4).take (read16 rest 2).toNat).length = (read16 rest 2).toNat := by
    rw [List.length_take, List.length_drop]
    omega
  have hpad : (((rest.drop 4).drop (read16 rest 2).toNat).take
      (((read16 rest 2).toNat + 3) / 4 * 4 - (read16 rest 2).toNat)).length =
      ((read16 rest 2).toNat + 3) / 4 * 4 - (read16 rest 2).toNat := by
    rw [List.length_take, List.length_drop, List.length_drop]
    omega
  refine ⟨⟨read16 rest 0, (rest.drop 4).take (read16 rest 2).toNat,
    ((rest.drop 4).drop (read16 rest 2).toNat).take
      (((read16 rest 2).toNat + 3) / 4 * 4 - (read16 rest 2).toNat),
    by omega, by omega⟩, rfl, rfl, ?_⟩
  have htype := drop_read16 rest 0 (by omega)
  have hlength := drop_read16 rest 2 (by omega)
  rw [List.drop_zero] at htype
  have hfield : BitVec.ofNat 16 (read16 rest 2).toNat = read16 rest 2 := by
    rw [BitVec.ofNat_toNat]
    exact BitVec.setWidth_eq _
  have hsum : 4 + ((read16 rest 2).toNat + 3) / 4 * 4 =
      4 + (read16 rest 2).toNat +
        (((read16 rest 2).toNat + 3) / 4 * 4 - (read16 rest 2).toNat) := by omega
  simp only [Attribute.bytes]
  rw [hlen, hfield, List.append_assoc, List.append_assoc, List.append_assoc, hsum]
  simp only [← List.drop_drop]
  rw [List.take_append_drop, List.take_append_drop]
  rw [← hlength, ← htype]

theorem attribute_header (a : Attribute) (more : List U8) :
    read16 (a.bytes ++ more) 0 = a.type ∧ (read16 (a.bytes ++ more) 2).toNat = a.value.length ∧
      ((a.bytes ++ more).drop attrHeaderSize).take a.value.length = a.value := by
  have hsplit : a.bytes ++ more = write16 a.type ++ (write16 (BitVec.ofNat 16 a.value.length) ++
      (a.value ++ (a.padding ++ more))) := by
    simp only [Attribute.bytes, List.append_assoc]
  refine ⟨?_, ?_, ?_⟩
  · rw [hsplit, read16_write16]
  · have hsecond := read16_append (write16 a.type) (write16 (BitVec.ofNat 16 a.value.length) ++
      (a.value ++ (a.padding ++ more))) 0
    rw [read16_write16] at hsecond
    rw [hsplit, show (2 : ℕ) = (write16 a.type).length + 0 from rfl, hsecond, a.lengthField]
  · have hdrop : (a.bytes ++ more).drop attrHeaderSize = a.value ++ (a.padding ++ more) := by
      rw [hsplit]
      rfl
    rw [hdrop]
    exact List.take_left' rfl

/-! ## Values -/

def cookieHigh : U16 := (stunCookie >>> 16).setWidth 16

/-- An endpoint as a value of `XOR-MAPPED-ADDRESS`. The first byte is reserved. -/
def mappedValue (reserved : U8) (endpoint : Endpoint) : List U8 :=
  reserved :: addressFamilyIpv4 ::
    (write16 (endpoint.port ^^^ cookieHigh) ++ write32 (endpoint.address ^^^ stunCookie))

theorem decodeMappedAddress_eq (value : List U8) :
    decodeMappedAddress value =
      if value.length < 2 then .error (.failure .mappedAddressMalformed)
      else if read8 value 1 ≠ addressFamilyIpv4 then .error (.failure .mappedAddressFamily)
      else if value.length ≠ mappedIpv4ValueSize then .error (.failure .mappedAddressMalformed)
      else .ok ⟨read32 value 4 ^^^ stunCookie, read16 value 2 ^^^ cookieHigh⟩ := by
  unfold decodeMappedAddress
  by_cases hshort : value.length < 2
  · rw [if_pos hshort, if_pos hshort]
    rfl
  · rw [if_neg hshort, if_neg hshort, byteAt_inside (by omega)]
    by_cases hfamily : read8 value 1 ≠ addressFamilyIpv4
    · rw [if_pos hfamily]
      simp only [bind, Except.bind, if_pos hfamily]
      rfl
    · rw [if_neg hfamily]
      by_cases hsize : value.length ≠ mappedIpv4ValueSize
      · rw [if_pos hsize]
        simp only [bind, Except.bind, if_neg hfamily, if_pos hsize]
        rfl
      · rw [if_neg hsize]
        have hlen : value.length = 8 := not_not.mp hsize
        simp only [bind, Except.bind, if_neg hfamily, if_neg hsize,
          readU16_inside (show 2 + 2 ≤ value.length by omega),
          readU32_inside (show 4 + 4 ≤ value.length by omega)]
        rfl

theorem decodeMappedAddress_ok (value : List U8) (endpoint : Endpoint) :
    decodeMappedAddress value = .ok endpoint ↔
      ∃ reserved, value = mappedValue reserved endpoint := by
  rw [decodeMappedAddress_eq]
  constructor
  · intro h
    split_ifs at h with hshort hfamily hsize
    cases h
    have hlen : value.length = 8 := not_not.mp hsize
    have h0 := drop_read8 value 0 (by omega)
    have h1 := drop_read8 value 1 (by omega)
    have h2 := drop_read16 value 2 (by omega)
    have h4 := drop_read32 value 4 (by omega)
    have hend : value.drop (4 + 4) = [] := List.drop_eq_nil_of_le (by omega)
    refine ⟨read8 value 0, ?_⟩
    simp only [mappedValue, BitVec.xor_assoc, BitVec.xor_self, BitVec.xor_zero]
    rw [hend, List.append_nil] at h4
    rw [← not_not.mp hfamily, ← h4]
    calc value = read8 value 0 :: value.drop 1 := h0
      _ = _ := by rw [h1, h2]
  · rintro ⟨reserved, rfl⟩
    have hlen : (mappedValue reserved endpoint).length = 8 := rfl
    have hfamily : read8 (mappedValue reserved endpoint) 1 = addressFamilyIpv4 := rfl
    have hport : read16 (mappedValue reserved endpoint) 2 = endpoint.port ^^^ cookieHigh := by
      have h := read16_append [reserved, addressFamilyIpv4]
        (write16 (endpoint.port ^^^ cookieHigh) ++ write32 (endpoint.address ^^^ stunCookie)) 0
      rw [read16_write16] at h
      exact h
    have haddress : read32 (mappedValue reserved endpoint) 4 = endpoint.address ^^^ stunCookie := by
      have h :=
        read32_append ([reserved, addressFamilyIpv4] ++ write16 (endpoint.port ^^^ cookieHigh))
        (write32 (endpoint.address ^^^ stunCookie) ++ []) 0
      rw [read32_write32] at h
      rw [List.append_nil] at h
      exact h
    rw [if_neg (by omega), if_neg (not_not.mpr hfamily),
      if_neg (show ¬ _ ≠ mappedIpv4ValueSize from not_not.mpr hlen), hport, haddress]
    simp only [BitVec.xor_assoc, BitVec.xor_self, BitVec.xor_zero]

/-- The code of an `ERROR-CODE` value, as far as it is in its range. -/
def errorCodeOf (value : List U8) : Option U16 :=
  if value.length < errorCodePrefixSize then none
  else if read8 value 2 &&& 0x07 < 3 ∨ 6 < read8 value 2 &&& 0x07 ∨ 99 < read8 value 3 then none
  else some ((read8 value 2 &&& 0x07).setWidth 16 * 100 + (read8 value 3).setWidth 16)

theorem decodeErrorCode_eq (value : List U8) : decodeErrorCode value = .ok (errorCodeOf value) := by
  unfold decodeErrorCode errorCodeOf errorCodePrefixSize
  by_cases hshort : value.length < 4
  · rw [if_pos hshort, if_pos hshort]
    rfl
  · rw [if_neg hshort, if_neg hshort, byteAt_inside (by omega), byteAt_inside (by omega)]
    simp only [bind, Except.bind]
    split <;> rfl

theorem decodeMappedAddress_total (value : List U8) :
    (∃ endpoint, decodeMappedAddress value = .ok endpoint) ∨
      ∃ e, decodeMappedAddress value = .error (.failure e) := by
  rw [decodeMappedAddress_eq]
  split_ifs
  · exact .inr ⟨_, rfl⟩
  · exact .inr ⟨_, rfl⟩
  · exact .inr ⟨_, rfl⟩
  · exact .inl ⟨_, rfl⟩

theorem Walk.attribute_total (isSuccess isError : Bool) (w : Walk) (attrType : U16)
    (value : List U8) :
    (∃ w', w.attribute isSuccess isError attrType value = .ok w') ∨
      ∃ e, w.attribute isSuccess isError attrType value = .error (.failure e) := by
  unfold Walk.attribute
  split_ifs
  · exact .inl ⟨_, rfl⟩
  · rcases decodeMappedAddress_total value with ⟨endpoint, h⟩ | ⟨e, h⟩
    · rw [h]
      exact .inl ⟨_, rfl⟩
    · rw [h]
      exact .inr ⟨e, rfl⟩
  · rw [decodeErrorCode_eq]
    exact .inl ⟨_, rfl⟩
  · exact .inl ⟨_, rfl⟩

/-! ## The walk -/

def Walk.attributes (isSuccess isError : Bool) (w : Walk) (attrs : List Attribute) :
    Except Halt Walk :=
  attrs.foldlM (fun w a => w.attribute isSuccess isError a.type a.value) w

theorem Walk.attributes_cons (isSuccess isError : Bool) (w : Walk) (a : Attribute)
    (attrs : List Attribute) :
    w.attributes isSuccess isError (a :: attrs) =
      (w.attribute isSuccess isError a.type a.value).bind fun w =>
      w.attributes isSuccess isError attrs :=
  List.foldlM_cons

theorem walk_tiled (short : Halt) {datagram : List U8} (isSuccess isError : Bool)
    {attrs : List Attribute} :
    ∀ {rounds offset : ℕ} (w : Walk), offset ≤ datagram.length → attrs.length < rounds →
      Tiles (datagram.drop offset) attrs →
      walk short datagram isSuccess isError rounds offset w =
        w.attributes isSuccess isError attrs := by
  induction attrs with
  | nil =>
    intro rounds offset w hle hrounds htiles
    obtain ⟨rounds, rfl⟩ : ∃ r, rounds = r + 1 := ⟨rounds - 1, by omega⟩
    have hend : datagram.length ≤ offset := List.drop_eq_nil_iff.mp htiles
    rw [walk, if_pos hend]
    rfl
  | cons a attrs ih =>
    intro rounds offset w hle hrounds htiles
    obtain ⟨rounds, rfl⟩ : ∃ r, rounds = r + 1 := ⟨rounds - 1, by omega⟩
    have hrest : datagram.drop offset = a.bytes ++ attrs.flatMap Attribute.bytes := htiles
    have hlength := congrArg List.length hrest
    rw [List.length_drop, List.length_append, a.length_bytes] at hlength
    obtain ⟨htype, hlen, hvalue⟩ := attribute_header a (attrs.flatMap Attribute.bytes)
    rw [← hrest, read16_drop, Nat.add_zero] at htype
    rw [← hrest, read16_drop] at hlen
    rw [← hrest, List.drop_drop] at hvalue
    unfold attrHeaderSize at *
    rw [walk, if_neg (by omega)]
    dsimp only
    rw [if_neg (by unfold attrHeaderSize; omega), readU16_inside (by omega),
      readU16_inside (by omega), htype]
    simp only [bind, Except.bind]
    rw [paddedSize_eq, hlen, if_neg (by unfold attrHeaderSize; omega),
      subspan_inside (by unfold attrHeaderSize; omega)]
    unfold attrHeaderSize
    dsimp only
    rw [hvalue, Walk.attributes_cons]
    cases hstep : w.attribute isSuccess isError a.type a.value with
    | error e => rfl
    | ok w' =>
      apply ih w' (by omega) (by simpa using hrounds)
      unfold Tiles
      rw [← List.drop_drop, hrest]
      exact List.drop_left' a.length_bytes

/-- Bytes that attributes do not tile end the walk with an error, whatever the check does that an
aligned length never reaches. -/
theorem walk_untiled {datagram : List U8} (isSuccess isError : Bool) :
    ∀ {rounds offset : ℕ} (w : Walk), offset ≤ datagram.length →
      (datagram.length - offset) % 4 = 0 →
      datagram.length - offset < rounds → (¬ ∃ attrs, Tiles (datagram.drop offset) attrs) →
      ∃ e, ∀ short, walk short datagram isSuccess isError rounds offset w =
        .error (.failure e) := by
  intro rounds
  induction rounds with
  | zero =>
    intro offset w _ _ hrounds
    omega
  | succ rounds ih =>
    intro offset w hle haligned hrounds hnone
    have hmore : ¬ datagram.length ≤ offset := by
      intro hend
      exact hnone ⟨[], List.drop_eq_nil_of_le hend⟩
    have hread : ∀ short, walk short datagram isSuccess isError (rounds + 1) offset w =
        if datagram.length - offset - attrHeaderSize <
          paddedSize (read16 datagram (offset + 2)) then
          .error (.failure .attributeTruncated)
        else
          (subspan datagram (offset + attrHeaderSize)
            (read16 datagram (offset + 2)).toNat).bind fun value =>
            (w.attribute isSuccess isError (read16 datagram offset) value).bind fun w =>
              walk short datagram isSuccess isError rounds
                (offset + (attrHeaderSize + paddedSize (read16 datagram (offset + 2)))) w := by
      intro short
      rw [walk, if_neg hmore]
      dsimp only
      rw [if_neg (by unfold attrHeaderSize; omega), readU16_inside (by omega),
        readU16_inside (by omega)]
      rfl
    simp only [hread]
    by_cases htruncated : datagram.length - offset - attrHeaderSize <
      paddedSize (read16 datagram (offset + 2))
    · exact ⟨_, fun short => if_pos htruncated⟩
    · simp only [if_neg htruncated]
      rw [paddedSize_eq] at htruncated ⊢
      have hheader : attrHeaderSize ≤ (datagram.drop offset).length := by
        rw [List.length_drop]
        unfold attrHeaderSize
        omega
      obtain ⟨a, htype, hvalue, hrest⟩ := attribute_front hheader (by
        rw [read16_drop, List.length_drop]
        omega)
      unfold attrHeaderSize at *
      rw [read16_drop] at hvalue hrest
      rw [subspan_inside (by omega)]
      simp only [Except.bind]
      rcases Walk.attribute_total isSuccess isError w (read16 datagram offset)
          ((datagram.drop (offset + 4)).take (read16 datagram (offset + 2)).toNat) with ⟨w',
            hstep⟩ | ⟨e, hstep⟩
      · rw [hstep]
        apply ih w' (by omega) (by omega) (by omega)
        rintro ⟨attrs, htiles⟩
        apply hnone
        refine ⟨a :: attrs, ?_⟩
        rw [Tiles, ← List.drop_drop] at htiles
        rw [Tiles, List.flatMap_cons, ← htiles]
        exact hrest
      · rw [hstep]
        exact ⟨e, fun short => rfl⟩

/-! ## What the attributes of a response mean -/

def isMapped (a : Attribute) : Bool := a.type = attrXorMappedAddress

def isErrorCode (a : Attribute) : Bool := a.type = attrErrorCode

/-- Behind the first mapped address, another one only leaves its mark. -/
theorem attributes_mapped {w : Walk} (hsaw : w.sawMapped = true) (attrs : List Attribute) :
    w.attributes true false attrs =
      .ok { w with duplicateMapped := w.duplicateMapped || !(attrs.filter isMapped).isEmpty } := by
  induction attrs generalizing w with
  | nil => simp [Walk.attributes, pure, Except.pure]
  | cons a attrs ih =>
    rw [Walk.attributes_cons]
    unfold Walk.attribute
    by_cases ha : a.type = attrXorMappedAddress
    · have hmapped : isMapped a = true := decide_eq_true ha
      rw [if_pos ⟨rfl, ha, hsaw⟩, List.filter_cons_of_pos hmapped]
      simp only [Except.bind]
      rw [ih (w := { w with duplicateMapped := true }) hsaw]
      simp
    · have hmapped : ¬ isMapped a = true := by simpa [isMapped] using ha
      rw [if_neg (fun h => ha h.2.1), if_neg (fun h => ha h.2), if_neg (by simp),
        List.filter_cons_of_neg hmapped]
      simp only [Except.bind]
      exact ih hsaw

theorem attributes_success {w : Walk} (hsaw : w.sawMapped = false) (attrs : List Attribute) :
    w.attributes true false attrs =
      match attrs.filter isMapped with
      | [] => .ok w
      | a :: others => (decodeMappedAddress a.value).bind fun endpoint =>
          .ok { w with sawMapped := true, mapped := some endpoint,
                       duplicateMapped := w.duplicateMapped || !others.isEmpty } := by
  induction attrs generalizing w with
  | nil => rfl
  | cons a attrs ih =>
    rw [Walk.attributes_cons]
    unfold Walk.attribute
    by_cases ha : a.type = attrXorMappedAddress
    · have hmapped : isMapped a = true := decide_eq_true ha
      rw [if_neg (by simp [hsaw]), if_pos ⟨rfl, ha⟩, List.filter_cons_of_pos hmapped]
      dsimp only
      cases hdecode : decodeMappedAddress a.value with
      | error e => rfl
      | ok endpoint =>
        simp only [bind, Except.bind, pure, Except.pure]
        exact attributes_mapped rfl attrs
    · have hmapped : ¬ isMapped a = true := by simpa [isMapped] using ha
      rw [if_neg (fun h => ha h.2.1), if_neg (fun h => ha h.2), if_neg (by simp),
        List.filter_cons_of_neg hmapped]
      exact ih hsaw

theorem attributes_coded {w : Walk} (hsaw : w.sawErrorCode = true) (attrs : List Attribute) :
    w.attributes false true attrs = .ok w := by
  induction attrs with
  | nil => rfl
  | cons a attrs ih =>
    rw [Walk.attributes_cons]
    unfold Walk.attribute
    rw [if_neg (by simp), if_neg (by simp), if_neg (by simp [hsaw])]
    exact ih

theorem attributes_error {w : Walk} (hsaw : w.sawErrorCode = false) (attrs : List Attribute) :
    w.attributes false true attrs =
      match attrs.find? isErrorCode with
      | none => .ok w
      | some a => .ok { w with sawErrorCode := true, errorCode := errorCodeOf a.value } := by
  induction attrs generalizing w with
  | nil => rfl
  | cons a attrs ih =>
    rw [Walk.attributes_cons]
    unfold Walk.attribute
    rw [if_neg (by simp), if_neg (by simp)]
    by_cases ha : a.type = attrErrorCode
    · have hcode : isErrorCode a = true := decide_eq_true ha
      rw [if_pos ⟨rfl, ha, by simp [hsaw]⟩, List.find?_cons_of_pos hcode, decodeErrorCode_eq]
      simp only [bind, Except.bind, pure, Except.pure]
      exact attributes_coded rfl attrs
    · have hcode : ¬ isErrorCode a = true := by simpa [isErrorCode] using ha
      rw [if_neg (fun h => ha h.2.1), List.find?_cons_of_neg hcode]
      exact ih hsaw

/-! ## Responses -/

/-- A header with what is expected in it, and attributes that tile the rest. -/
structure IsResponse (datagram : List U8) (expected : TransactionId)
    (attrs : List Attribute) : Prop where
  header : stunHeaderSize ≤ datagram.length
  leading : read8 datagram 0 &&& 0xC0 = 0
  cookie : read32 datagram 4 = stunCookie
  id : (datagram.drop 8).take 12 = expected.toList
  type : read16 datagram 0 = StunMessageType.bindingSuccessResponse.value ∨
    read16 datagram 0 = StunMessageType.bindingErrorResponse.value
  aligned : (read16 datagram 2).toNat % 4 = 0
  length : stunHeaderSize + (read16 datagram 2).toNat = datagram.length
  tiles : Tiles (datagram.drop stunHeaderSize) attrs

inductive Means (rawType : U16) (attrs : List Attribute) : StunResponse → Prop where
  | success {a : Attribute} {reserved : U8} {endpoint : Endpoint} :
      rawType = StunMessageType.bindingSuccessResponse.value → attrs.filter isMapped = [a] →
      a.value = mappedValue reserved endpoint →
      Means rawType attrs ⟨.bindingSuccessResponse, some endpoint, none⟩
  | error : rawType = StunMessageType.bindingErrorResponse.value →
      Means rawType attrs
        ⟨.bindingErrorResponse, none, (attrs.find? isErrorCode).bind fun a => errorCodeOf a.value⟩

theorem parseLengthAndAttributes_eq (short : Halt) (rounds : ℕ) {datagram : List U8}
    (h : stunHeaderSize ≤ datagram.length) (isSuccess isError : Bool) :
    parseLengthAndAttributes short rounds datagram isSuccess isError =
      if (read16 datagram 2).toNat % 4 ≠ 0 then .error (.failure .lengthNotAligned)
      else if stunHeaderSize + (read16 datagram 2).toNat ≠ datagram.length then
      .error (.failure .lengthMismatch)
      else (walk short datagram isSuccess isError rounds stunHeaderSize .start).bind
        (finish isSuccess) := by
  have hlow : ∀ x : U16, x &&& 0x03 ≠ 0 ↔ x.toNat % 4 ≠ 0 := by
    intro x
    have hand : (x &&& 0x03).toNat = x.toNat % 4 := by
      rw [BitVec.toNat_and]
      exact Nat.and_two_pow_sub_one_eq_mod _ 2
    rw [← hand, ne_eq, ne_eq, ← BitVec.toNat_inj]
    rfl
  unfold stunHeaderSize at h
  unfold parseLengthAndAttributes
  rw [readU16_inside (by omega)]
  simp only [bind, Except.bind, hlow]

theorem parse_eq (short : Halt) (rounds : ℕ) {datagram : List U8}
    (h : stunHeaderSize ≤ datagram.length) (expected : TransactionId) :
    parseBindingResponseWith short rounds datagram expected =
      if read8 datagram 0 &&& 0xC0 ≠ 0 then .error (.failure .notStun)
      else if read32 datagram 4 ≠ stunCookie then .error (.failure .badCookie)
      else if transactionIdOf datagram ≠ expected then .error (.failure .transactionMismatch)
      else if read16 datagram 0 = StunMessageType.bindingSuccessResponse.value then
        parseLengthAndAttributes short rounds datagram true false
      else if read16 datagram 0 = StunMessageType.bindingErrorResponse.value then
        parseLengthAndAttributes short rounds datagram false true
      else .error (.failure .unknownType) := by
  have hlen : 20 ≤ datagram.length := h
  unfold parseBindingResponseWith
  rw [if_neg (by unfold stunHeaderSize; omega), hasStunLeadingBits_inside h, hasStunCookie_inside h,
    readTransactionId_inside h, readU16_inside (by omega)]
  simp only [bind, Except.bind]
  by_cases hleading : read8 datagram 0 &&& 0xC0 = 0
  · rw [if_neg (not_not.mpr hleading), if_neg (by simpa using hleading)]
    by_cases hcookie : read32 datagram 4 = stunCookie
    · rw [if_neg (not_not.mpr hcookie), if_neg (by simp [hcookie])]
      by_cases hid : transactionIdOf datagram = expected
      · rw [if_neg (not_not.mpr hid), if_neg (not_not.mpr hid)]
        by_cases hsuccess : read16 datagram 0 = StunMessageType.bindingSuccessResponse.value
        · have hdiffer : ¬ StunMessageType.bindingSuccessResponse.value =
              StunMessageType.bindingErrorResponse.value := by decide
          rw [if_pos hsuccess, hsuccess, decide_eq_true rfl, decide_eq_false hdiffer,
            if_neg (by decide)]
        · rw [if_neg hsuccess, decide_eq_false hsuccess]
          by_cases herror : read16 datagram 0 = StunMessageType.bindingErrorResponse.value
          · rw [if_pos herror, decide_eq_true herror, if_neg (by decide)]
          · rw [if_neg herror, decide_eq_false herror, if_pos (by decide)]
      · rw [if_pos hid, if_pos hid]
    · rw [if_pos hcookie, if_pos (by simp [hcookie])]
  · rw [if_pos hleading, if_pos (by simpa using hleading)]

def responseType (isSuccess : Bool) : U16 :=
  if isSuccess then StunMessageType.bindingSuccessResponse.value else
    StunMessageType.bindingErrorResponse.value

theorem parse_response {datagram : List U8} {expected : TransactionId} {attrs : List Attribute}
    (h : IsResponse datagram expected attrs) {isSuccess : Bool}
    (htype : read16 datagram 0 = responseType isSuccess) {rounds : ℕ}
    (hrounds : attrs.length < rounds) (short : Halt) :
    parseBindingResponseWith short rounds datagram expected =
      (Walk.start.attributes isSuccess (!isSuccess) attrs).bind (finish isSuccess) := by
  have hid : transactionIdOf datagram = expected := by
    rw [← Vector.toList_inj, transactionIdOf_toList h.header]
    exact h.id
  have hrest : parseLengthAndAttributes short rounds datagram isSuccess (!isSuccess) =
      (Walk.start.attributes isSuccess (!isSuccess) attrs).bind (finish isSuccess) := by
    rw [parseLengthAndAttributes_eq short rounds h.header, if_neg (not_not.mpr h.aligned),
      if_neg (not_not.mpr h.length),
      walk_tiled short isSuccess (!isSuccess) .start h.header hrounds h.tiles]
  rw [parse_eq short rounds h.header, if_neg (not_not.mpr h.leading), if_neg (not_not.mpr h.cookie),
    if_neg (not_not.mpr hid), ← hrest, htype]
  cases isSuccess
  · rw [if_neg (by decide), if_pos (by decide)]
    rfl
  · rw [if_pos (by decide)]
    rfl

/-- Without a header and a tiling the parser ends with an error, and never in the check of a cut
header. -/
theorem parse_refused {datagram : List U8} {expected : TransactionId} {rounds : ℕ}
    (hrounds : datagram.length < rounds) (hnone : ¬ ∃ attrs, IsResponse datagram expected attrs) :
    ∃ e, ∀ short, parseBindingResponseWith short rounds datagram expected =
      .error (.failure e) := by
  by_cases hheader : datagram.length < stunHeaderSize
  · exact ⟨_, fun short => if_pos hheader⟩
  rw [not_lt] at hheader
  simp only [parse_eq _ rounds hheader, parseLengthAndAttributes_eq _ rounds hheader]
  by_cases hleading : read8 datagram 0 &&& 0xC0 ≠ 0
  · exact ⟨_, fun short => if_pos hleading⟩
  by_cases hcookie : read32 datagram 4 ≠ stunCookie
  · exact ⟨_, fun short => by rw [if_neg hleading, if_pos hcookie]⟩
  by_cases hid : transactionIdOf datagram ≠ expected
  · exact ⟨_, fun short => by rw [if_neg hleading, if_neg hcookie, if_pos hid]⟩
  simp only [if_neg hleading, if_neg hcookie, if_neg hid]
  by_cases haligned : (read16 datagram 2).toNat % 4 ≠ 0
  · simp only [if_pos haligned]
    split_ifs
    · exact ⟨_, fun short => rfl⟩
    · exact ⟨_, fun short => rfl⟩
    · exact ⟨_, fun short => rfl⟩
  by_cases hlength : stunHeaderSize + (read16 datagram 2).toNat ≠ datagram.length
  · simp only [if_neg haligned, if_pos hlength]
    split_ifs
    · exact ⟨_, fun short => rfl⟩
    · exact ⟨_, fun short => rfl⟩
    · exact ⟨_, fun short => rfl⟩
  simp only [if_neg haligned, if_neg hlength]
  have huntiled : read16 datagram 0 = StunMessageType.bindingSuccessResponse.value ∨
      read16 datagram 0 = StunMessageType.bindingErrorResponse.value →
      ∀ isSuccess isError, ∃ e, ∀ short,
        walk short datagram isSuccess isError rounds stunHeaderSize .start =
          .error (.failure e) := by
    intro htype isSuccess isError
    apply walk_untiled isSuccess isError .start hheader (by omega) (by omega)
    rintro ⟨attrs, htiles⟩
    refine hnone ⟨attrs, hheader, not_not.mp hleading, not_not.mp hcookie, ?_, htype, by
      omega, not_not.mp hlength,
      htiles⟩
    rw [← transactionIdOf_toList hheader, not_not.mp hid]
  by_cases hsuccess : read16 datagram 0 = StunMessageType.bindingSuccessResponse.value
  · obtain ⟨e, he⟩ := huntiled (.inl hsuccess) true false
    exact ⟨e, fun short => by rw [if_pos hsuccess, he]; rfl⟩
  by_cases herror : read16 datagram 0 = StunMessageType.bindingErrorResponse.value
  · obtain ⟨e, he⟩ := huntiled (.inr herror) false true
    exact ⟨e, fun short => by rw [if_neg hsuccess, if_pos herror, he]; rfl⟩
  · exact ⟨_, fun short => by rw [if_neg hsuccess, if_neg herror]⟩

theorem attributes_total (isSuccess : Bool) (attrs : List Attribute) :
    (∃ r, (Walk.start.attributes isSuccess (!isSuccess) attrs).bind (finish isSuccess) = .ok r) ∨
      ∃ e, (Walk.start.attributes isSuccess (!isSuccess) attrs).bind (finish isSuccess) =
        .error (.failure e) := by
  have hfinish : ∀ w, (∃ r, finish isSuccess w = .ok r) ∨
    ∃ e, finish isSuccess w = .error (.failure e) := by
    intro w
    unfold finish
    split_ifs
    · exact .inr ⟨_, rfl⟩
    · exact .inr ⟨_, rfl⟩
    · exact .inl ⟨_, rfl⟩
    · exact .inl ⟨_, rfl⟩
  have hwalk : ∀ w : Walk, (∃ w', w.attributes isSuccess (!isSuccess) attrs = .ok w') ∨
      ∃ e, w.attributes isSuccess (!isSuccess) attrs = .error (.failure e) := by
    induction attrs with
    | nil => exact fun w => .inl ⟨w, rfl⟩
    | cons a attrs ih =>
      intro w
      rw [Walk.attributes_cons]
      rcases Walk.attribute_total isSuccess (!isSuccess) w a.type a.value with ⟨w', h⟩ | ⟨e, h⟩
      · rw [h]
        exact ih w'
      · rw [h]
        exact .inr ⟨e, rfl⟩
  rcases hwalk .start with ⟨w, h⟩ | ⟨e, h⟩
  · rw [h]
    exact hfinish w
  · rw [h]
    exact .inr ⟨e, rfl⟩

theorem attributes_means (isSuccess : Bool) (attrs : List Attribute) (r : StunResponse) :
    (Walk.start.attributes isSuccess (!isSuccess) attrs).bind (finish isSuccess) = .ok r ↔
      Means (responseType isSuccess) attrs r := by
  cases isSuccess with
  | false =>
    rw [Bool.not_false, attributes_error rfl]
    have hmeans : Means (responseType false) attrs r ↔ r = ⟨.bindingErrorResponse, none,
        (attrs.find? isErrorCode).bind fun a => errorCodeOf a.value⟩ := by
      constructor
      · intro h
        cases h with
        | success htype => exact absurd htype (by decide)
        | error => rfl
      · rintro rfl
        exact .error rfl
    rw [hmeans]
    cases attrs.find? isErrorCode with
    | none => exact ⟨fun h => (Except.ok.inj h).symm, fun h => congrArg Except.ok h.symm⟩
    | some a => exact ⟨fun h => (Except.ok.inj h).symm, fun h => congrArg Except.ok h.symm⟩
  | true =>
    rw [Bool.not_true, attributes_success rfl]
    constructor
    · intro h
      cases hfilter : attrs.filter isMapped with
      | nil =>
        rw [hfilter] at h
        cases h
      | cons a others =>
        rw [hfilter] at h
        dsimp only at h
        cases hdecode : decodeMappedAddress a.value with
        | error e =>
          rw [hdecode] at h
          cases h
        | ok endpoint =>
          rw [hdecode] at h
          cases others with
          | nil =>
            cases h
            obtain ⟨reserved, hvalue⟩ := (decodeMappedAddress_ok _ _).mp hdecode
            exact .success rfl hfilter hvalue
          | cons _ _ => cases h
    · intro h
      cases h with
      | success _ hfilter hvalue =>
        rw [hfilter]
        dsimp only
        rw [(decodeMappedAddress_ok _ _).mpr ⟨_, hvalue⟩]
        rfl
      | error htype => exact absurd htype (by decide)

theorem IsResponse.responseType {datagram : List U8} {expected : TransactionId}
    {attrs : List Attribute} (h : IsResponse datagram expected attrs) :
    ∃ isSuccess, read16 datagram 0 = responseType isSuccess := by
  rcases h.type with htype | htype
  · exact ⟨true, htype⟩
  · exact ⟨false, htype⟩

theorem IsResponse.rounds {datagram : List U8} {expected : TransactionId} {attrs : List Attribute}
    (h : IsResponse datagram expected attrs) : attrs.length ≤ datagram.length := by
  have hbytes : ∀ attrs : List Attribute,
    attrs.length ≤ (attrs.flatMap Attribute.bytes).length := by
    intro attrs
    induction attrs with
    | nil => exact Nat.le_refl _
    | cons a attrs ih =>
      have hlength := a.length_bytes
      unfold attrHeaderSize at hlength
      rw [List.flatMap_cons, List.length_append, List.length_cons]
      omega
  have hlength := congrArg List.length h.tiles
  have hle := hbytes attrs
  rw [List.length_drop] at hlength
  omega

/-! ## The encoding of a mapped address -/

theorem length_mappedValue (reserved : U8) (endpoint : Endpoint) :
    (mappedValue reserved endpoint).length = 8 := rfl

def mappedAttribute (reserved : U8) (endpoint : Endpoint) : Attribute :=
  ⟨attrXorMappedAddress, mappedValue reserved endpoint, [], by rw [length_mappedValue]; decide,
    by rw [length_mappedValue]; decide⟩

def encodeResponse (id : TransactionId) (attrs : List Attribute) : List U8 :=
  write16 StunMessageType.bindingSuccessResponse.value ++
    (write16 (BitVec.ofNat 16 (attrs.flatMap Attribute.bytes).length) ++
      (write32 stunCookie ++ (id.toList ++ attrs.flatMap Attribute.bytes)))

theorem length_attributes (attrs : List Attribute) :
    (attrs.flatMap Attribute.bytes).length % 4 = 0 := by
  induction attrs with
  | nil => rfl
  | cons a attrs ih =>
    have hlength := a.length_bytes
    unfold attrHeaderSize at hlength
    rw [List.flatMap_cons, List.length_append]
    omega

theorem encodeResponse_isResponse (id : TransactionId) {attrs : List Attribute}
    (hfits : (attrs.flatMap Attribute.bytes).length < 65536) :
    IsResponse (encodeResponse id attrs) id attrs ∧
    read16 (encodeResponse id attrs) 0 = responseType true := by
  have htype : read16 (encodeResponse id attrs) 0 = StunMessageType.bindingSuccessResponse.value :=
    read16_write16 _ _
  have hfield : (read16 (encodeResponse id attrs) 2).toNat =
    (attrs.flatMap Attribute.bytes).length := by
    have h : read16 (encodeResponse id attrs) 2 =
      BitVec.ofNat 16 (attrs.flatMap Attribute.bytes).length := by
      unfold encodeResponse
      rw [show (2 : ℕ) = (write16 StunMessageType.bindingSuccessResponse.value).length + 0 from rfl,
        read16_append,
        read16_write16]
    rw [h, BitVec.toNat_ofNat]
    omega
  have hcookie : read32 (encodeResponse id attrs) 4 = stunCookie := by
    unfold encodeResponse
    rw [← List.append_assoc, show (4 : ℕ) = (write16 StunMessageType.bindingSuccessResponse.value ++
      write16 (BitVec.ofNat 16 (attrs.flatMap Attribute.bytes).length)).length + 0 from rfl,
      read32_append,
      read32_write32]
  have hbehind : (encodeResponse id attrs).drop 8 = id.toList ++
    attrs.flatMap Attribute.bytes := rfl
  have hlength : (encodeResponse id attrs).length =
    stunHeaderSize + (attrs.flatMap Attribute.bytes).length := by
    simp only [encodeResponse, List.length_append, length_write16, length_write32,
      Vector.length_toList,
      stunHeaderSize]
    omega
  have hleading : read8 (encodeResponse id attrs) 0 =
      (StunMessageType.bindingSuccessResponse.value >>> 8).setWidth 8 := rfl
  refine ⟨⟨by omega, by rw [hleading]; decide, hcookie, ?_, .inl htype, ?_, ?_, ?_⟩, htype⟩
  · rw [hbehind]
    exact List.take_left' (Vector.length_toList ..)
  · rw [hfield]
    exact length_attributes attrs
  · rw [hfield, hlength]
  · unfold Tiles
    rw [show stunHeaderSize = 8 + 12 from rfl, ← List.drop_drop, hbehind]
    exact List.drop_left' (Vector.length_toList ..)

/-- The walk ends within the datagram and never finds a cut header, what is accepted is a header
with attributes that tile the rest, and an endpoint is read back from its encoding. -/
theorem stun_response_parsing (expected : TransactionId) :
    (∀ (datagram : List U8) (rounds : ℕ), datagram.length < rounds →
      (∀ short, parseBindingResponseWith short rounds datagram expected =
        parseBindingResponse rounds datagram expected) ∧
      ((∃ r, parseBindingResponse rounds datagram expected = .ok r) ∨
        ∃ e, parseBindingResponse rounds datagram expected = .error (.failure e)) ∧
      ∀ r, parseBindingResponse rounds datagram expected = .ok r ↔
        ∃ attrs, IsResponse datagram expected attrs ∧ Means (read16 datagram 0) attrs r) ∧
    ∀ (reserved : U8) (endpoint : Endpoint) (before after : List Attribute),
      (∀ a ∈ before ++ after, a.type ≠ attrXorMappedAddress) →
      ((before ++ mappedAttribute reserved endpoint :: after).flatMap Attribute.bytes).length <
        65536 →
      ∀ rounds, (before ++ mappedAttribute reserved endpoint :: after).length < rounds →
        parseBindingResponse rounds
          (encodeResponse expected (before ++ mappedAttribute reserved endpoint :: after))
          expected = .ok ⟨.bindingSuccessResponse, some endpoint, none⟩ := by
  constructor
  · intro datagram rounds hrounds
    by_cases hresponse : ∃ attrs, IsResponse datagram expected attrs
    · obtain ⟨attrs, h⟩ := hresponse
      obtain ⟨isSuccess, htype⟩ := h.responseType
      have hparse : ∀ {attrs}, IsResponse datagram expected attrs → ∀ short,
          parseBindingResponseWith short rounds datagram expected =
            (Walk.start.attributes isSuccess (!isSuccess) attrs).bind (finish isSuccess) :=
        fun h short => parse_response h htype (Nat.lt_of_le_of_lt h.rounds hrounds) short
      refine ⟨fun short => ?_, ?_, fun r => ⟨fun hr => ?_, ?_⟩⟩
      · rw [parseBindingResponse, hparse h, hparse h]
      · rw [parseBindingResponse, hparse h]
        exact attributes_total isSuccess attrs
      · rw [parseBindingResponse, hparse h, attributes_means, ← htype] at hr
        exact ⟨attrs, h, hr⟩
      · rintro ⟨attrs, h, hmeans⟩
        rw [parseBindingResponse, hparse h, attributes_means, ← htype]
        exact hmeans
    · obtain ⟨e, he⟩ := parse_refused hrounds hresponse
      refine ⟨fun short => ?_, .inr ⟨e, he _⟩, fun r => ⟨fun hr => ?_, ?_⟩⟩
      · rw [parseBindingResponse, he, he]
      · rw [parseBindingResponse, he] at hr
        cases hr
      · rintro ⟨attrs, h, -⟩
        exact absurd ⟨attrs, h⟩ hresponse
  · intro reserved endpoint before after hothers hfits rounds hrounds
    obtain ⟨h, htype⟩ := encodeResponse_isResponse expected hfits
    rw [parseBindingResponse, parse_response h htype hrounds, attributes_means]
    have hskip : ∀ l : List Attribute, (∀ a ∈ l, a.type ≠ attrXorMappedAddress) →
      l.filter isMapped = [] := by
      intro l hl
      rw [List.filter_eq_nil_iff]
      intro a ha
      simpa [isMapped] using hl a ha
    have hfilter : (before ++ mappedAttribute reserved endpoint :: after).filter isMapped =
        [mappedAttribute reserved endpoint] := by
      have hmapped : isMapped (mappedAttribute reserved endpoint) = true := decide_eq_true rfl
      rw [List.filter_append, List.filter_cons_of_pos hmapped,
        hskip before fun a ha => hothers a (List.mem_append_left _ ha),
        hskip after fun a ha => hothers a (List.mem_append_right _ ha), List.nil_append]
    exact .success rfl hfilter rfl

theorem mapped_endpoint_read_back :
    parseBindingResponse 33
      (encodeResponse (Vector.replicate 12 7) [mappedAttribute 0 ⟨0xCB007105, 40000⟩])
      (Vector.replicate 12 7) = .ok ⟨.bindingSuccessResponse, some ⟨0xCB007105, 40000⟩, none⟩ :=
  (stun_response_parsing (Vector.replicate 12 7)).2 0 ⟨0xCB007105, 40000⟩ [] [] (by simp)
    (by decide) 33 (by decide)

end Sangtachi.Stun
