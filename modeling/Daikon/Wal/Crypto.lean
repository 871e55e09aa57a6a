/-
# Daikon.Wal.Crypto -- text and encryption at rest (`crypto.rs`)

Bytes are lists of `UInt8`. The cipher, base64 and the key in the environment are parameters; the
framing around them is the source's: a prefix, and behind it the base64 text of nonce and ciphertext.
Data without the prefix is taken as it is.

What is assumed of the packages is in `Crypto.Lawful`, and only for a key that is set: base64 is text of one
line that decodes to what was encoded, the ciphertext opens with the key and nonce it was sealed with.
Nothing is assumed of secrecy, and no result is about it. That the text in the environment is a key of 32
bytes, and which texts are, is the subject of `Daikon.Wal.Key`.

The white space of `str::trim` is Unicode's (`isWhitespace`), which matters for lines that hold nothing
else.
-/
import Mathlib.Data.List.Basic

namespace Daikon

/-- The contents of a file or of a part of it. -/
abbrev Bytes := List UInt8

/-! ## Text -/

/-- The UTF-8 bytes of a text. -/
def utf8 (s : String) : Bytes := s.toByteArray.data.toList

/-- The text of bytes that are valid UTF-8. -/
def fromUtf8 (bytes : Bytes) : Option String := String.fromUTF8? ⟨bytes.toArray⟩

theorem fromUtf8_utf8 (s : String) : fromUtf8 (utf8 s) = some s := by
  unfold fromUtf8 utf8 String.fromUTF8?
  rw [Array.toArray_toList, dif_pos s.isValidUTF8]
  rfl

theorem utf8_append (s t : String) : utf8 (s ++ t) = utf8 s ++ utf8 t := by
  simp [utf8, String.toByteArray_append]

/-- `char::is_whitespace`. -/
def isWhitespace (c : Char) : Bool :=
  (9 ≤ c.toNat ∧ c.toNat ≤ 13) ∨ c.toNat = 0x20 ∨ c.toNat = 0x85 ∨ c.toNat = 0xA0 ∨ c.toNat = 0x1680 ∨
    (0x2000 ≤ c.toNat ∧ c.toNat ≤ 0x200A) ∨ c.toNat = 0x2028 ∨ c.toNat = 0x2029 ∨ c.toNat = 0x202F ∨
    c.toNat = 0x205F ∨ c.toNat = 0x3000

/-- `line.trim().is_empty()`. -/
def isBlank (s : String) : Bool := s.toList.all isWhitespace

/-! ## Encryption -/

/-- `NONCE_SIZE`, that of AES-GCM. -/
def nonceSize : Nat := 12

/-- The bytes that `getrandom` fills. -/
structure Nonce where
  bytes : Bytes
  length : bytes.length = nonceSize

/-- The key in the environment and the functions of other packages. -/
structure Crypto where
  /-- `key_from_env`. -/
  keyFromEnv : Except String (Option Bytes)
  /-- AES-256-GCM with a key and a nonce. -/
  cipherEncrypt : Bytes → Nonce → Bytes → Option Bytes
  cipherDecrypt : Bytes → Nonce → Bytes → Option Bytes
  base64Encode : Bytes → Bytes
  base64Decode : Bytes → Option Bytes

/-- `ENC_PREFIX`. Data that begin with it are taken for encrypted. -/
def encPrefix : String := "DAIKON-ENC1:"

namespace Crypto

/-- `encrypt`; no nonce is a failure of the random source. -/
def encrypt (c : Crypto) (nonce : Option Nonce) (data : Bytes) : Except String Bytes :=
  match c.keyFromEnv with
  | .error e => .error e
  | .ok none => .ok data
  | .ok (some key) =>
      match nonce with
      | none => .error "random nonce generation failed"
      | some nonce =>
          match c.cipherEncrypt key nonce data with
          | none => .error "encryption failed"
          | some ciphertext => .ok (utf8 encPrefix ++ c.base64Encode (nonce.bytes ++ ciphertext))

/-- `decrypt`. Whether the data are encrypted is read off them, not off the environment. -/
def decrypt (c : Crypto) (data : Bytes) : Except String Bytes :=
  -- data written before a key was set stays readable
  if ¬ utf8 encPrefix <+: data then .ok data
  else
    match c.keyFromEnv with
    | .error e => .error e
    | .ok none => .error "encrypted data requires KV_AT_REST_KEY"
    | .ok (some key) =>
        match c.base64Decode (data.drop (utf8 encPrefix).length) with
        | none => .error "invalid encrypted data"
        | some payload =>
            if h : payload.length < nonceSize then .error "invalid encrypted data"
            else
              match c.cipherDecrypt key ⟨payload.take nonceSize, by rw [List.length_take]; omega⟩
                  (payload.drop nonceSize) with
              | none => .error "decryption failed; check KV_AT_REST_KEY"
              | some data => .ok data

/-- What the code relies on while a key is set: base64 is text of one line that decodes to what was
encoded, and the cipher opens what it has sealed. -/
structure Lawful (c : Crypto) (key : Bytes) : Prop where
  text : ∀ bytes, ∃ s, c.base64Encode bytes = utf8 s
  oneLine : ∀ bytes, 10 ∉ c.base64Encode bytes ∧ 13 ∉ c.base64Encode bytes
  base64 : ∀ bytes, c.base64Decode (c.base64Encode bytes) = some bytes
  cipher : ∀ nonce data ciphertext, c.cipherEncrypt key nonce data = some ciphertext →
    c.cipherDecrypt key nonce ciphertext = some data

/-- What was encrypted is decrypted. -/
theorem decrypt_encrypted {c : Crypto} {key : Bytes} (hkey : c.keyFromEnv = .ok (some key))
    (hc : c.Lawful key) {nonce : Nonce} {data ciphertext : Bytes}
    (hcipher : c.cipherEncrypt key nonce data = some ciphertext) :
    c.decrypt (utf8 encPrefix ++ c.base64Encode (nonce.bytes ++ ciphertext)) = .ok data := by
  have hlong : ¬ (nonce.bytes ++ ciphertext).length < nonceSize := by
    rw [List.length_append, nonce.length]
    omega
  have hnonce : (nonce.bytes ++ ciphertext).take nonceSize = nonce.bytes :=
    List.take_left' nonce.length
  have hrest : (nonce.bytes ++ ciphertext).drop nonceSize = ciphertext :=
    List.drop_left' nonce.length
  unfold decrypt
  rw [if_neg (not_not.mpr (List.prefix_append _ _)), hkey]
  simp only [List.drop_left, hc.base64]
  rw [dif_neg hlong]
  simp only [hnonce, hrest]
  rw [show (⟨nonce.bytes, _⟩ : Nonce) = nonce from rfl, hc.cipher nonce data ciphertext hcipher]

theorem decrypt_plain (c : Crypto) {data : Bytes} (h : ¬ utf8 encPrefix <+: data) :
    c.decrypt data = .ok data := by
  rw [decrypt, if_pos h]

end Crypto

end Daikon
