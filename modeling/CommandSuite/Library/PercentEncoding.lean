import CommandSuite.Library.Utf8

/-! # Percent-encoding

Texts whose UTF-8 bytes stand as `%XX`, apart from the characters that are left as they are. Decoding inverts encoding, also where
characters were left that the encoding escapes.
-/

namespace CommandSuite.Library.PercentEncoding

def hexDigit (digit : Nat) : Char := Char.ofNat (if digit < 10 then 48 + digit else 55 + digit)

def hexValue (c : Char) : Option Nat :=
  if '0' ≤ c ∧ c ≤ '9' then some (c.toNat - 48)
  else if 'A' ≤ c ∧ c ≤ 'F' then some (c.toNat - 55)
  else if 'a' ≤ c ∧ c ≤ 'f' then some (c.toNat - 87)
  else none

def percent (byte : Nat) : List Char := ['%', hexDigit (byte / 16), hexDigit (byte % 16)]

def encodeChar (unreserved : Char → Bool) (c : Char) : List Char :=
  if unreserved c then [c] else (Utf8.encode c.toNat).flatMap percent

def encode (unreserved : Char → Bool) (text : String) : String := String.ofList (text.toList.flatMap (encodeChar unreserved))

/-- The bytes that a text stands for. A `%` begins two hexadecimal digits. -/
def bytes : List Char → Option (List Nat)
  | [] => some []
  | c :: rest =>
    if c = '%' then
      match rest with
      | high :: low :: rest =>
        match hexValue high, hexValue low with
        | some high, some low => (bytes rest).map fun rest => (high * 16 + low) :: rest
        | _, _ => none
      | _ => none
    else (bytes rest).map fun rest => Utf8.encode c.toNat ++ rest

def readUtf8 (bytes : List Nat) : Option String :=
  if (Utf8.decode bytes).flatMap Utf8.encode = bytes then some (Utf8.toString bytes) else none

def decode (text : String) : Option String := (bytes text.toList).bind readUtf8

/-! ## Characters -/

theorem hexValue_hexDigit {digit : Nat} (h : digit < 16) : hexValue (hexDigit digit) = some digit := by
  have hAll : ∀ digit : Fin 16, hexValue (hexDigit digit) = some digit.val := by decide
  exact hAll ⟨digit, h⟩

theorem isScalar_toNat (c : Char) : Utf8.IsScalar c.toNat := by
  have hValid : c.toNat < 0xD800 ∨ 0xDFFF < c.toNat ∧ c.toNat < 0x110000 := c.valid
  unfold Utf8.IsScalar
  omega

theorem encode_lt {point : Nat} (h : Utf8.IsScalar point) : ∀ byte ∈ Utf8.encode point, byte < 256 := by
  unfold Utf8.IsScalar at h
  unfold Utf8.encode
  intro byte hByte
  split at hByte
  · rw [List.mem_singleton] at hByte
    omega
  · split at hByte
    · simp only [List.mem_cons, List.not_mem_nil, or_false] at hByte
      omega
    · split at hByte <;> simp only [List.mem_cons, List.not_mem_nil, or_false] at hByte <;> omega

theorem readUtf8_encode (text : List Char) : readUtf8 (text.flatMap fun c => Utf8.encode c.toNat) = some (String.ofList text) := by
  have hScalar : ∀ point ∈ text.map Char.toNat, Utf8.IsScalar point := by
    intro point hPoint
    obtain ⟨c, _, rfl⟩ := List.mem_map.mp hPoint
    exact isScalar_toNat c
  have hFeed := Utf8.feed_flatMap_encode hScalar
  rw [List.flatMap_map] at hFeed
  have hDecode : Utf8.decode (text.flatMap fun c => Utf8.encode c.toNat) = text.map Char.toNat := by
    unfold Utf8.decode
    rw [hFeed]
    exact List.append_nil _
  have hChars : (text.map Char.toNat).map Char.ofNat = text := by
    rw [List.map_map]
    exact (List.map_congr_left fun c _ => Char.ofNat_toNat c).trans (List.map_id _)
  unfold readUtf8 Utf8.toString
  rw [hDecode, hChars, List.flatMap_map, if_pos rfl]

/-! ## Escapes -/

theorem bytes_percent {byte : Nat} (h : byte < 256) (rest : List Char) :
    bytes (percent byte ++ rest) = (bytes rest).map fun rest => byte :: rest := by
  have hByte : byte / 16 * 16 + byte % 16 = byte := by omega
  change bytes ('%' :: hexDigit (byte / 16) :: hexDigit (byte % 16) :: rest) = _
  rw [bytes, if_pos rfl, hexValue_hexDigit (by omega), hexValue_hexDigit (by omega)]
  dsimp only
  rw [hByte]

theorem bytes_percents {escaped : List Nat} (h : ∀ byte ∈ escaped, byte < 256) (rest : List Char) :
    bytes (escaped.flatMap percent ++ rest) = (bytes rest).map fun rest => escaped ++ rest := by
  induction escaped with
  | nil => exact Option.map_id'.symm
  | cons byte escaped ih =>
    obtain ⟨hByte, hRest⟩ := List.forall_mem_cons.mp h
    rw [List.flatMap_cons, List.append_assoc, bytes_percent hByte, ih hRest, Option.map_map]
    rfl

theorem bytes_plain {c : Char} (h : c ≠ '%') (rest : List Char) :
    bytes (c :: rest) = (bytes rest).map fun rest => Utf8.encode c.toNat ++ rest := by
  conv_lhs => unfold bytes
  rw [if_neg h]

variable {unreserved : Char → Bool}

theorem bytes_encodeChar (hPercent : unreserved '%' = false) (c : Char) (rest : List Char) :
    bytes (encodeChar unreserved c ++ rest) = (bytes rest).map fun rest => Utf8.encode c.toNat ++ rest := by
  unfold encodeChar
  split
  · rename_i hLeft
    refine bytes_plain (fun hSame => ?_) rest
    rw [hSame, hPercent] at hLeft
    cases hLeft
  · exact bytes_percents (encode_lt (isScalar_toNat c)) rest

theorem bytes_encode (hPercent : unreserved '%' = false) (text rest : List Char) :
    bytes (text.flatMap (encodeChar unreserved) ++ rest) =
      (bytes rest).map fun rest => (text.flatMap fun c => Utf8.encode c.toNat) ++ rest := by
  induction text with
  | nil => exact Option.map_id'.symm
  | cons c text ih =>
    rw [List.flatMap_cons, List.append_assoc, bytes_encodeChar hPercent, ih, Option.map_map]
    simp only [List.flatMap_cons, List.append_assoc]
    rfl

theorem bytes_of_plain {text : List Char} (h : '%' ∉ text) (rest : List Char) :
    bytes (text ++ rest) = (bytes rest).map fun rest => (text.flatMap fun c => Utf8.encode c.toNat) ++ rest := by
  induction text with
  | nil => exact Option.map_id'.symm
  | cons c text ih =>
    rw [List.mem_cons, not_or] at h
    rw [List.cons_append, bytes_plain (Ne.symm h.1), ih h.2, Option.map_map]
    simp only [List.flatMap_cons, List.append_assoc]
    rfl

theorem decode_append_encode (hPercent : unreserved '%' = false) {plain : String} (h : '%' ∉ plain.toList)
    (text : String) : decode (plain ++ encode unreserved text) = some (plain ++ text) := by
  have hBytes := bytes_encode hPercent text.toList []
  rw [List.append_nil] at hBytes
  unfold decode encode
  rw [String.toList_append, String.toList_ofList, bytes_of_plain h, hBytes]
  change readUtf8 (_ ++ (_ ++ [])) = _
  rw [List.append_nil, ← List.flatMap_append, readUtf8_encode, ← String.toList_append, String.ofList_toList]

theorem decode_encode (hPercent : unreserved '%' = false) (text : String) : decode (encode unreserved text) = some text := by
  have h : decode ("" ++ encode unreserved text) = some ("" ++ text) := decode_append_encode hPercent List.not_mem_nil text
  rwa [String.empty_append, String.empty_append] at h

variable {text : String}

theorem decode_plain (h : '%' ∉ text.toList) : decode text = some text := by
  have hText : decode (text ++ encode (fun _ => false) "") = some (text ++ "") := decode_append_encode rfl h ""
  have hEmpty : encode (fun _ => false) "" = "" := rfl
  rwa [hEmpty, String.append_empty] at hText

theorem mem_encode {c : Char} (h : c ∈ (encode unreserved text).toList) :
    unreserved c = true ∨ c = '%' ∨ ∃ digit < 16, c = hexDigit digit := by
  rw [encode, String.toList_ofList] at h
  obtain ⟨d, _, hEncoded⟩ := List.mem_flatMap.mp h
  unfold encodeChar at hEncoded
  split at hEncoded
  · rename_i hLeft
    exact .inl (List.mem_singleton.mp hEncoded ▸ hLeft)
  · obtain ⟨byte, hByte, hPercent⟩ := List.mem_flatMap.mp hEncoded
    have hLess := encode_lt (isScalar_toNat d) byte hByte
    simp only [percent, List.mem_cons, List.not_mem_nil, or_false] at hPercent
    rcases hPercent with rfl | rfl | rfl
    · exact .inr (.inl rfl)
    · exact .inr (.inr ⟨_, by omega, rfl⟩)
    · exact .inr (.inr ⟨_, by omega, rfl⟩)

theorem encode_eq_empty_iff (hPercent : unreserved '%' = false) : encode unreserved text = "" ↔ text = "" := by
  constructor
  · intro h
    have hDecode := decode_encode hPercent text
    rw [h] at hDecode
    exact (Option.some.inj hDecode).symm
  · rintro rfl
    rfl

end CommandSuite.Library.PercentEncoding
