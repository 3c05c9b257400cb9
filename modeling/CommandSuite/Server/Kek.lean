import CommandSuite.Core.FieldCrypto

/-! # Encrypted fields of the server

The form over `node:crypto`, and what it and the form over Web Crypto make of each other's values.
-/

namespace CommandSuite.Kek

open Library Utf16 FieldCrypto Text

variable (gcm : AesGcm)

/-- `createCipheriv` and `createDecipheriv` take no other key. -/
def cipherKey (kek : Bytes) : Except FieldError Bytes := if kek.length ≠ KEK_BYTES then throw .keyLength else return kek

/-- `iv` is what `randomBytes` gives. -/
def encryptField (kek iv : Bytes) : Option JsString → Except FieldError (Option JsString) :=
  encryptWith (fun plaintext => do
    let key ← cipherKey kek
    return gcm.encrypt key iv plaintext) iv

/-- `Buffer.from(text, 'base64url')` reads what it can. -/
def bufferFrom (text : JsString) : Except FieldError Bytes := .ok (Base64Url.decodeLenient text)

def openField (kek iv authTag ciphertext : Bytes) : Except FieldError JsString := do
  let key ← cipherKey kek
  match gcm.decrypt key iv ciphertext authTag with
  | some plain => return (Utf8.decode plain).flatMap units
  | none => throw .authentication

def decryptField (kek : Bytes) : Option JsString → Except FieldError (Option JsString) :=
  decryptWith bufferFrom (openField gcm kek)

section RoundTrip

variable {gcm} (hGcm : gcm.Correct) {kek iv : Bytes} (hKek : kek.length = KEK_BYTES)

theorem cipherKey_of_length {kek : Bytes} (h : kek.length = KEK_BYTES) : cipherKey kek = .ok kek := if_neg (not_not.mpr h)

theorem bufferFrom_of_decode {text : JsString} {bytes : Bytes} (h : Base64Url.decode text = some bytes) :
    bufferFrom text = .ok bytes := congrArg Except.ok (Base64Url.decodeLenient_of_decode h)

include hKek

theorem encryptField_eq {plaintext : JsString} (h : ¬ FieldCrypto.ENCRYPTED_FIELD_PREFIX <+: plaintext) :
    encryptField gcm kek iv (some plaintext) =
      .ok (some (wrapper iv (gcm.encrypt kek iv (encode plaintext)).2 (gcm.encrypt kek iv (encode plaintext)).1)) := by
  refine encryptWith_of_seal h ?_
  simp only [cipherKey_of_length hKek, bind, Except.bind]
  rfl

include hGcm

theorem decryptField_wrapper {plaintext : JsString} (hIv : Octets iv) (hIvLength : iv.length = IV_BYTES) :
    decryptField gcm kek (some (wrapper iv (gcm.encrypt kek iv (encode plaintext)).2 (gcm.encrypt kek iv (encode plaintext)).1)) =
      .ok (some (toWellFormed plaintext)) := by
  have hOctets := hGcm.octets kek iv (encode plaintext) lt_of_mem_encode
  have hTagLength := hGcm.tag_length kek iv (encode plaintext)
  unfold decryptField
  rw [decryptWith_wrapper hIv hOctets.2 hOctets.1 hIvLength hTagLength fun _ hBytes =>
    bufferFrom_of_decode (Base64Url.decode_encode hBytes)]
  simp only [openField, cipherKey_of_length hKek, bind, Except.bind, hGcm.decrypt_encrypt kek iv (encode plaintext) lt_of_mem_encode,
    decode_encode]
  rfl

end RoundTrip

/-! ## Agreement -/

def Strict (value : JsString) : Prop :=
  FieldCrypto.ENCRYPTED_FIELD_PREFIX <+: value → ∀ first ivB64 tagB64 ctB64, value.splitOn 58 = [first, ivB64, tagB64, ctB64] →
    (Base64Url.decode ivB64).isSome ∧ (Base64Url.decode tagB64).isSome ∧ (Base64Url.decode ctB64).isSome

def Unmarked (kek : Bytes) (value : JsString) : Prop :=
  FieldCrypto.ENCRYPTED_FIELD_PREFIX <+: value → ∀ text, decryptField gcm kek (some value) = .ok (some text) → text.head? ≠ some 0xFEFF

section Agreement

variable {gcm} {kek : Bytes} {value : JsString}

theorem openField_agrees {iv authTag ciphertext : Bytes} (hTag : authTag.length = AUTH_TAG_BYTES)
    (hText : ∀ text, openField gcm kek iv authTag ciphertext = .ok text → text.head? ≠ some 0xFEFF) :
    (openField gcm kek iv authTag ciphertext).toOption = (openPortable gcm kek iv authTag ciphertext).toOption := by
  unfold openField openPortable at *
  by_cases hKek : kek.length = KEK_BYTES
  · have hParts := sealed_parts ciphertext hTag
    rw [cipherKey_of_length hKek] at hText ⊢
    rw [importKek_of_length hKek]
    simp only [bind, Except.bind, subtleDecrypt, hParts.1, hParts.2] at hText ⊢
    cases hPlain : gcm.decrypt kek iv ciphertext authTag with
    | none => rfl
    | some plain =>
      rw [hPlain] at hText
      dsimp only
      rw [decode_of_head (hText _ rfl)]
  · rw [cipherKey, if_pos hKek, importKek, if_pos hKek]
    rfl

theorem decryptors_agree (hStrict : Strict value) (hText : Unmarked gcm kek value) :
    (decryptField gcm kek (some value)).toOption = (decryptFieldPortable gcm kek (some value)).toOption := by
  by_cases hPrefix : FieldCrypto.ENCRYPTED_FIELD_PREFIX <+: value
  · by_cases hParts : ∃ first ivB64 tagB64 ctB64, value.splitOn 58 = [first, ivB64, tagB64, ctB64]
    · obtain ⟨first, ivB64, tagB64, ctB64, hSplit⟩ := hParts
      obtain ⟨hIv, hTag, hCiphertext⟩ := hStrict hPrefix first ivB64 tagB64 ctB64 hSplit
      obtain ⟨iv, hIv⟩ := Option.isSome_iff_exists.mp hIv
      obtain ⟨authTag, hTag⟩ := Option.isSome_iff_exists.mp hTag
      obtain ⟨ciphertext, hCiphertext⟩ := Option.isSome_iff_exists.mp hCiphertext
      have hRead : decryptField gcm kek (some value) = _ := decryptWith_of_parts hPrefix hSplit (bufferFrom_of_decode hIv)
        (bufferFrom_of_decode hTag) (bufferFrom_of_decode hCiphertext)
      have hPortable {text : JsString} {bytes : Bytes} (h : Base64Url.decode text = some bytes) : fromBase64Url text = .ok bytes := by
        rw [fromBase64Url, h]
      have hReadPortable : decryptFieldPortable gcm kek (some value) = _ := decryptWith_of_parts hPrefix hSplit (hPortable hIv)
        (hPortable hTag) (hPortable hCiphertext)
      have hMark := hText hPrefix
      rw [hRead] at hMark ⊢
      rw [hReadPortable]
      split
      · rfl
      · rename_i hIvLength
        split
        · rfl
        · rename_i hTagLength
          rw [if_neg hIvLength, if_neg hTagLength] at hMark
          have hOpen := openField_agrees (not_not.mp hTagLength) fun text hOpen => hMark text (by rw [hOpen]; rfl)
          have hMap (result : Except FieldError JsString) : (some <$> result).toOption = some <$> result.toOption := by
            cases result <;> rfl
          rw [hMap, hMap, hOpen]
    · have hMalformed : ∀ first ivB64 tagB64 ctB64, value.splitOn 58 ≠ [first, ivB64, tagB64, ctB64] :=
        fun first ivB64 tagB64 ctB64 hSplit => hParts ⟨first, ivB64, tagB64, ctB64, hSplit⟩
      unfold decryptField decryptFieldPortable
      rw [decryptWith_of_malformed hPrefix hMalformed, decryptWith_of_malformed hPrefix hMalformed]
  · unfold decryptField decryptFieldPortable decryptWith
    simp only [if_neg (List.isPrefixOf_iff_prefix.not.mpr hPrefix)]

end Agreement

theorem fields_round_trip {gcm : AesGcm} (hGcm : gcm.Correct) {kek : Bytes} (hKek : kek.length = KEK_BYTES) :
    (∀ iv : Bytes, Octets iv → iv.length = IV_BYTES → ∀ plaintext : JsString,
      ∀ encrypt ∈ [encryptField gcm kek iv, encryptFieldPortable gcm kek iv],
        if FieldCrypto.ENCRYPTED_FIELD_PREFIX.isPrefixOf plaintext then encrypt (some plaintext) = .ok (some plaintext)
        else ∃ stored, encrypt (some plaintext) = .ok (some stored) ∧
          decryptField gcm kek (some stored) = .ok (some (toWellFormed plaintext)) ∧
          (plaintext.head? ≠ some 0xFEFF → decryptFieldPortable gcm kek (some stored) = .ok (some (toWellFormed plaintext)))) ∧
      ∀ value : JsString, Strict value → Unmarked gcm kek value →
        (decryptField gcm kek (some value)).toOption = (decryptFieldPortable gcm kek (some value)).toOption := by
  refine ⟨fun iv hIv hIvLength plaintext encrypt hEncrypt => ?_, fun value => decryptors_agree⟩
  simp only [List.mem_cons, List.not_mem_nil, or_false] at hEncrypt
  split
  · rename_i hPrefix
    have hPlain := List.isPrefixOf_iff_prefix.mp hPrefix
    obtain rfl | rfl := hEncrypt <;> exact encryptWith_of_prefix hPlain
  · rename_i hPrefix
    have hPlain := List.isPrefixOf_iff_prefix.not.mp hPrefix
    refine ⟨_, ?_, decryptField_wrapper hGcm hKek hIv hIvLength, decryptFieldPortable_wrapper hGcm hKek hIv hIvLength⟩
    obtain rfl | rfl := hEncrypt
    · exact encryptField_eq hKek hPlain
    · exact encryptFieldPortable_eq hGcm hKek hPlain

def nodeKek : Bytes := List.replicate 32 7

def nodeIv : Bytes := List.replicate 12 3

/-- A value that was wrapped by `node:crypto`. -/
def nodeVector : JsString := utf16 "enc-v1:AwMDAwMDAwMDAwMD:mBkm_DfMXPOlvl6GN1uthg:TYvNdz9abG8OLzcsxiSab59ZlA"

def nodePlaintext : JsString := utf16 "hunter2-totp-secret"

def nodeCiphertext : Bytes := Base64Url.decodeLenient (utf16 "TYvNdz9abG8OLzcsxiSab59ZlA")

def nodeTag : Bytes := Base64Url.decodeLenient (utf16 "mBkm_DfMXPOlvl6GN1uthg")

/-- AES-256-GCM on the wrapped value; any other text it leaves as it is, under a tag of zeros. -/
def nodeCipher : AesGcm where
  encrypt kek iv plaintext :=
    if kek = nodeKek ∧ iv = nodeIv ∧ plaintext = encode nodePlaintext then (nodeCiphertext, nodeTag)
    else (plaintext, List.replicate 16 0)
  decrypt kek iv ciphertext tag :=
    if kek = nodeKek ∧ iv = nodeIv ∧ ciphertext = nodeCiphertext ∧ tag = nodeTag then
      some (encode nodePlaintext)
    else if tag = List.replicate 16 0 then some ciphertext else none

theorem nodeCipher_correct : nodeCipher.Correct where
  decrypt_encrypt kek iv plaintext hPlaintext := by
    have hZeros : List.replicate 16 0 ≠ nodeTag := by decide
    by_cases hNode : kek = nodeKek ∧ iv = nodeIv ∧ plaintext = encode nodePlaintext
    · obtain ⟨rfl, rfl, rfl⟩ := hNode
      rfl
    · simp only [nodeCipher, if_neg hNode]
      rw [if_neg fun h => hZeros h.2.2.2]
      rfl
  tag_length kek iv plaintext := by
    unfold nodeCipher
    dsimp only
    split
    · rfl
    · exact List.length_replicate
  octets kek iv plaintext hPlaintext := by
    unfold nodeCipher
    dsimp only
    split
    · exact ⟨by decide, by decide⟩
    · exact ⟨hPlaintext, show Octets (List.replicate 16 0) by decide⟩

/-- A plaintext that is a wrapper itself is stored as it is, and read as what it wraps. -/
theorem wrapped_plaintext_not_returned : nodeCipher.Correct ∧
    ¬ ∀ plaintext : JsString, ∀ stored,
      encryptField nodeCipher nodeKek nodeIv (some plaintext) = .ok (some stored) →
        decryptField nodeCipher nodeKek (some stored) = .ok (some plaintext) := by
  refine ⟨nodeCipher_correct, fun h => ?_⟩
  have hRead := h nodeVector nodeVector (by decide)
  have hOther : decryptField nodeCipher nodeKek (some nodeVector) = .ok (some nodePlaintext) := by decide
  rw [hOther] at hRead
  exact absurd hRead (by decide)

theorem nodePlaintext_round_trips : ∃ stored,
    encryptField nodeCipher nodeKek nodeIv (some nodePlaintext) = .ok (some stored) ∧
      decryptField nodeCipher nodeKek (some stored) = .ok (some (toWellFormed nodePlaintext)) ∧
      (nodePlaintext.head? ≠ some 0xFEFF →
        decryptFieldPortable nodeCipher nodeKek (some stored) = .ok (some (toWellFormed nodePlaintext))) := by
  have hKek : nodeKek.length = KEK_BYTES := rfl
  have hEncrypt : encryptField nodeCipher nodeKek nodeIv ∈
      [encryptField nodeCipher nodeKek nodeIv, encryptFieldPortable nodeCipher nodeKek nodeIv] := List.mem_cons_self
  have hStored := (fields_round_trip nodeCipher_correct hKek).1 nodeIv (by decide) rfl nodePlaintext _ hEncrypt
  rwa [if_neg (by decide)] at hStored

end CommandSuite.Kek
