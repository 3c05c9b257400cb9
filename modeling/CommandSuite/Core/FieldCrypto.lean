import CommandSuite.Library.Base64Url
import CommandSuite.Library.Utf16

/-! # Encrypted fields

A value at rest is wrapped as `enc-v1:<iv>:<tag>:<ciphertext>`, each part in base64url. This is the form over Web Crypto,
where the tag stands behind the ciphertext.
-/

namespace CommandSuite.FieldCrypto

open Library Utf16

abbrev Bytes := List Nat

def ENCRYPTED_FIELD_PREFIX : JsString := Text.utf16 "enc-v1:"

def KEK_BYTES : Nat := 32

def IV_BYTES : Nat := 12

def AUTH_TAG_BYTES : Nat := 16

/-- AES-256-GCM under a key and an initialisation vector: the ciphertext with its tag, and the plaintext of these. -/
structure AesGcm where
  encrypt (kek iv plaintext : Bytes) : Bytes × Bytes
  decrypt (kek iv ciphertext tag : Bytes) : Option Bytes

def Octets (bytes : Bytes) : Prop := ∀ byte ∈ bytes, byte < 256

instance (bytes : Bytes) : Decidable (Octets bytes) := inferInstanceAs (Decidable (∀ byte ∈ bytes, byte < 256))

/-- What a cipher that is correct gives for keys, vectors and texts that are bytes. -/
structure AesGcm.Correct (gcm : AesGcm) : Prop where
  decrypt_encrypt : ∀ kek iv plaintext, Octets plaintext →
    gcm.decrypt kek iv (gcm.encrypt kek iv plaintext).1 (gcm.encrypt kek iv plaintext).2 = some plaintext
  tag_length : ∀ kek iv plaintext, (gcm.encrypt kek iv plaintext).2.length = AUTH_TAG_BYTES
  octets : ∀ kek iv plaintext, Octets plaintext →
    Octets (gcm.encrypt kek iv plaintext).1 ∧ Octets (gcm.encrypt kek iv plaintext).2

/-- `keyLength` is the error of `createCipheriv` and `createDecipheriv`, the others are encrypted field errors. -/
inductive FieldError where
  | kekLength (got : Nat)
  | keyLength
  | malformed (parts : Nat)
  | base64
  | ivLength (got : Nat)
  | tagLength (got : Nat)
  | authentication
  deriving DecidableEq

def FieldError.message : FieldError → String
  | .kekLength got => "KEK must be exactly 32 bytes; got " ++ toString got
  | .keyLength => "Invalid key length"
  | .malformed parts => "encrypted field is malformed: expected 4 colon-separated parts, got " ++ toString parts
  | .base64 => "encrypted field base64url decode failed: "
  | .ivLength got => "encrypted field IV must be 12 bytes; got " ++ toString got
  | .tagLength got => "encrypted field auth tag must be 16 bytes; got " ++ toString got
  | .authentication => "encrypted field failed authentication (wrong KEK or tampered data): "

def wrapper (iv authTag ciphertext : Bytes) : JsString :=
  [58].intercalate [ENCRYPTED_FIELD_PREFIX.dropLast, Base64Url.encode iv, Base64Url.encode authTag, Base64Url.encode ciphertext]

def encryptWith (sealField : Bytes → Except FieldError (Bytes × Bytes)) (iv : Bytes) :
    Option JsString → Except FieldError (Option JsString)
  | none => .ok none
  | some plaintext =>
    if ENCRYPTED_FIELD_PREFIX.isPrefixOf plaintext then .ok (some plaintext)
    else do
      let (ciphertext, authTag) ← sealField (encode plaintext)
      return some (wrapper iv authTag ciphertext)

/-- Both bindings take a wrapper apart so; they differ in how they read base64url and how they open what was sealed. -/
def decryptWith (decode : JsString → Except FieldError Bytes) (openField : Bytes → Bytes → Bytes → Except FieldError JsString) :
    Option JsString → Except FieldError (Option JsString)
  | none => .ok none
  | some value =>
    if ENCRYPTED_FIELD_PREFIX.isPrefixOf value then
      match value.splitOn 58 with
      | [_, ivB64, tagB64, ctB64] => do
        let iv ← decode ivB64
        let authTag ← decode tagB64
        let ciphertext ← decode ctB64
        if iv.length ≠ IV_BYTES then throw (.ivLength iv.length)
        else if authTag.length ≠ AUTH_TAG_BYTES then throw (.tagLength authTag.length)
        else some <$> openField iv authTag ciphertext
      | parts => throw (.malformed parts.length)
    else .ok (some value)

/-! ## Over Web Crypto -/

variable (gcm : AesGcm)

def subtleEncrypt (kek iv plaintext : Bytes) : Bytes := (gcm.encrypt kek iv plaintext).1 ++ (gcm.encrypt kek iv plaintext).2

def subtleDecrypt (kek iv sealed : Bytes) : Option Bytes :=
  gcm.decrypt kek iv (sealed.take (sealed.length - AUTH_TAG_BYTES)) (sealed.drop (sealed.length - AUTH_TAG_BYTES))

def importKek (kek : Bytes) : Except FieldError Bytes :=
  if kek.length ≠ KEK_BYTES then throw (.kekLength kek.length) else return kek

/-- `iv` is what `getRandomValues` gives. -/
def encryptFieldPortable (kek iv : Bytes) : Option JsString → Except FieldError (Option JsString) :=
  encryptWith (fun plaintext => do
    let key ← importKek kek
    let sealed := subtleEncrypt gcm key iv plaintext
    return (sealed.take (sealed.length - AUTH_TAG_BYTES), sealed.drop (sealed.length - AUTH_TAG_BYTES))) iv

def fromBase64Url (text : JsString) : Except FieldError Bytes :=
  match Base64Url.decode text with
  | some bytes => .ok bytes
  | none => .error .base64

def openPortable (kek iv authTag ciphertext : Bytes) : Except FieldError JsString := do
  let key ← importKek kek
  match subtleDecrypt gcm key iv (ciphertext ++ authTag) with
  | some plain => return decode plain
  | none => throw .authentication

def decryptFieldPortable (kek : Bytes) : Option JsString → Except FieldError (Option JsString) :=
  decryptWith fromBase64Url (openPortable gcm kek)

/-! ## Wrappers -/

section Wrappers

variable {gcm}

theorem sealed_parts (ciphertext : Bytes) {authTag : Bytes} (h : authTag.length = AUTH_TAG_BYTES) :
    (ciphertext ++ authTag).take ((ciphertext ++ authTag).length - AUTH_TAG_BYTES) = ciphertext ∧
      (ciphertext ++ authTag).drop ((ciphertext ++ authTag).length - AUTH_TAG_BYTES) = authTag := by
  have hLength : (ciphertext ++ authTag).length - AUTH_TAG_BYTES = ciphertext.length := by
    rw [List.length_append, h, Nat.add_sub_cancel]
  rw [hLength]
  exact ⟨List.take_left, List.drop_left⟩

theorem prefix_wrapper (iv authTag ciphertext : Bytes) : ENCRYPTED_FIELD_PREFIX.isPrefixOf (wrapper iv authTag ciphertext) = true := rfl

theorem split_wrapper {iv authTag ciphertext : Bytes} (hIv : Octets iv) (hTag : Octets authTag) (hCiphertext : Octets ciphertext) :
    (wrapper iv authTag ciphertext).splitOn 58 =
      [ENCRYPTED_FIELD_PREFIX.dropLast, Base64Url.encode iv, Base64Url.encode authTag, Base64Url.encode ciphertext] := by
  have hColon {bytes : Bytes} (h : Octets bytes) : 58 ∉ Base64Url.encode bytes := fun hUnit =>
    (Base64Url.unit_of_mem_encode h hUnit).1 rfl
  refine List.splitOn_intercalate 58 ?_ (List.cons_ne_nil _ _)
  simp only [List.forall_mem_cons]
  exact ⟨by decide, hColon hIv, hColon hTag, hColon hCiphertext, nofun⟩

section Decrypting

variable {decode : JsString → Except FieldError Bytes} {openField : Bytes → Bytes → Bytes → Except FieldError JsString}
  {iv authTag ciphertext : Bytes}

theorem decryptWith_of_parts {value first ivB64 tagB64 ctB64 : JsString} (hPrefix : ENCRYPTED_FIELD_PREFIX <+: value)
    (hSplit : value.splitOn 58 = [first, ivB64, tagB64, ctB64]) (hIv : decode ivB64 = .ok iv) (hTag : decode tagB64 = .ok authTag)
    (hCiphertext : decode ctB64 = .ok ciphertext) :
    decryptWith decode openField (some value) =
      if iv.length ≠ IV_BYTES then .error (.ivLength iv.length)
      else if authTag.length ≠ AUTH_TAG_BYTES then .error (.tagLength authTag.length)
      else some <$> openField iv authTag ciphertext := by
  rw [decryptWith, if_pos (List.isPrefixOf_iff_prefix.mpr hPrefix), hSplit]
  dsimp only
  rw [hIv, hTag, hCiphertext]
  rfl

theorem decryptWith_of_malformed {value : JsString} (hPrefix : ENCRYPTED_FIELD_PREFIX <+: value)
    (hSplit : ∀ first ivB64 tagB64 ctB64, value.splitOn 58 ≠ [first, ivB64, tagB64, ctB64]) :
    decryptWith decode openField (some value) = .error (.malformed (value.splitOn 58).length) := by
  rw [decryptWith, if_pos (List.isPrefixOf_iff_prefix.mpr hPrefix)]
  split
  · rename_i first ivB64 tagB64 ctB64 hParts
    exact absurd hParts (hSplit first ivB64 tagB64 ctB64)
  · rfl

theorem decryptWith_wrapper (hIv : Octets iv) (hTag : Octets authTag) (hCiphertext : Octets ciphertext)
    (hIvLength : iv.length = IV_BYTES) (hTagLength : authTag.length = AUTH_TAG_BYTES)
    (hDecode : ∀ bytes, Octets bytes → decode (Base64Url.encode bytes) = .ok bytes) :
    decryptWith decode openField (some (wrapper iv authTag ciphertext)) = some <$> openField iv authTag ciphertext := by
  rw [decryptWith_of_parts (List.isPrefixOf_iff_prefix.mp (prefix_wrapper iv authTag ciphertext))
    (split_wrapper hIv hTag hCiphertext) (hDecode iv hIv) (hDecode authTag hTag) (hDecode ciphertext hCiphertext),
    if_neg (not_not.mpr hIvLength), if_neg (not_not.mpr hTagLength)]

end Decrypting

variable {sealField : Bytes → Except FieldError (Bytes × Bytes)} {plaintext : JsString}

theorem encryptWith_of_prefix {iv : Bytes}
    (h : ENCRYPTED_FIELD_PREFIX <+: plaintext) : encryptWith sealField iv (some plaintext) = .ok (some plaintext) :=
  if_pos (List.isPrefixOf_iff_prefix.mpr h)

theorem encryptWith_of_seal {iv ciphertext authTag : Bytes}
    (h : ¬ ENCRYPTED_FIELD_PREFIX <+: plaintext)
    (hSeal : sealField (encode plaintext) = .ok (ciphertext, authTag)) :
    encryptWith sealField iv (some plaintext) = .ok (some (wrapper iv authTag ciphertext)) := by
  rw [encryptWith, if_neg (List.isPrefixOf_iff_prefix.not.mpr h), hSeal]
  rfl

theorem importKek_of_length {kek : Bytes} (h : kek.length = KEK_BYTES) : importKek kek = .ok kek := if_neg (not_not.mpr h)

theorem fromBase64Url_encode {bytes : Bytes} (h : Octets bytes) : fromBase64Url (Base64Url.encode bytes) = .ok bytes := by
  rw [fromBase64Url, Base64Url.decode_encode h]

end Wrappers

section Portable

variable {gcm} (hGcm : gcm.Correct) {kek iv : Bytes} (hKek : kek.length = KEK_BYTES) {plaintext : JsString}

include hGcm hKek

theorem encryptFieldPortable_eq (h : ¬ ENCRYPTED_FIELD_PREFIX <+: plaintext) :
    encryptFieldPortable gcm kek iv (some plaintext) =
      .ok (some (wrapper iv (gcm.encrypt kek iv (encode plaintext)).2 (gcm.encrypt kek iv (encode plaintext)).1)) := by
  refine encryptWith_of_seal h ?_
  have hParts := sealed_parts (gcm.encrypt kek iv (encode plaintext)).1 (hGcm.tag_length kek iv (encode plaintext))
  simp only [importKek_of_length hKek, subtleEncrypt, bind, Except.bind, hParts.1, hParts.2]
  rfl

theorem decryptFieldPortable_wrapper (hIv : Octets iv) (hIvLength : iv.length = IV_BYTES)
    (hMark : plaintext.head? ≠ some 0xFEFF) :
    decryptFieldPortable gcm kek
        (some (wrapper iv (gcm.encrypt kek iv (encode plaintext)).2 (gcm.encrypt kek iv (encode plaintext)).1)) =
      .ok (some (toWellFormed plaintext)) := by
  have hOctets := hGcm.octets kek iv (encode plaintext) lt_of_mem_encode
  have hTagLength := hGcm.tag_length kek iv (encode plaintext)
  have hParts := sealed_parts (gcm.encrypt kek iv (encode plaintext)).1 hTagLength
  have hText : decode (encode plaintext) = toWellFormed plaintext := by
    rw [decode_of_head] <;> rw [decode_encode]
    · rfl
    · exact head_toWellFormed hMark
  unfold decryptFieldPortable
  rw [decryptWith_wrapper hIv hOctets.2 hOctets.1 hIvLength hTagLength fun _ => fromBase64Url_encode]
  simp only [openPortable, importKek_of_length hKek, bind, Except.bind, subtleDecrypt, hParts.1, hParts.2,
    hGcm.decrypt_encrypt kek iv (encode plaintext) lt_of_mem_encode, hText]
  rfl

end Portable

end CommandSuite.FieldCrypto
