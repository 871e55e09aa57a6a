/-
# Daikon.Wal.Key -- the key in the environment (`key_from_env`)

The text of the variable is tried as hexadecimal digits and then as base64, and has to give 32 bytes. Both
decoders are functions of other packages, and so they are parameters here (`TextCodecs`), with what the
packages document of them as hypotheses (`TextCodecs.Lawful`): each decoder undoes its encoder and takes no
text but that of the encoder, `hex` up to the case of letters; the text of `hex` is two of the sixteen digits
for each byte; that of `base64` is made of the characters of its standard alphabet and is padded unless the
bytes are full groups of three. `standard` is one pair of such codecs, for the examples.

From this it follows what the code accepts. A key of 32 bytes has its texts, the digits with letters of
either case and the one text in base64 (`key_accepted_iff`): none of them is blank, so `key_from_env` does
not take it for an unset variable, and the base64 of 32 bytes is padded, so that it is never taken for
digits, which are tried first. The text is not trimmed, and a text that gives another number of bytes is an
error and no missing key.

A blank text is no key; with any other text that gives none, nothing is encrypted and nothing encrypted is
read. What that means for a log whose lines were written under one text and are read under another is
`log_under_texts`: the key decides and not the text that it came from, and a reader without the key stops at
the first line that was sealed, with the reason.
-/
import Daikon.Lib.Hex
import Daikon.Wal.AtRest

namespace Daikon

open Lib (splitLines splitLines_append_of_notMem splitLines_concat)

/-! ## The packages `hex` and `base64` -/

/-- Their functions. The code decodes with both and encodes with `base64`. -/
structure TextCodecs where
  hexEncode : Bytes → Bytes
  /-- `hex::decode`. -/
  hexDecode : Bytes → Option Bytes
  /-- `STANDARD.encode`. -/
  base64Encode : Bytes → Bytes
  /-- `STANDARD.decode`. -/
  base64Decode : Bytes → Option Bytes

/-- A character of `hex::encode`: `0` to `9` and `a` to `f`. -/
def IsHexDigit (b : UInt8) : Prop :=
  (48 ≤ b.toNat ∧ b.toNat ≤ 57) ∨ (97 ≤ b.toNat ∧ b.toNat ≤ 102)

/-- A character of the standard alphabet of base64: a letter, a decimal digit, `+` or `/`. -/
def IsBase64Digit (b : UInt8) : Prop :=
  (65 ≤ b.toNat ∧ b.toNat ≤ 90) ∨ (97 ≤ b.toNat ∧ b.toNat ≤ 122) ∨ (48 ≤ b.toNat ∧ b.toNat ≤ 57) ∨
    b.toNat = 43 ∨ b.toNat = 47

instance (b : UInt8) : Decidable (IsHexDigit b) := inferInstanceAs (Decidable (_ ∨ _))

instance (b : UInt8) : Decidable (IsBase64Digit b) := inferInstanceAs (Decidable (_ ∨ _))

/-- The padding of base64, `=`. -/
def base64Pad : UInt8 := 61

/-- What the packages document. -/
structure TextCodecs.Lawful (t : TextCodecs) : Prop where
  hex : ∀ bytes, t.hexDecode (t.hexEncode bytes) = some bytes
  /-- Letters of both cases are valid, and mean the same. -/
  hexCase : ∀ text, t.hexDecode (text.map Lib.Hex.lower) = t.hexDecode text
  /-- Nothing else than digits is valid. -/
  hexText : ∀ text bytes, t.hexDecode text = some bytes → t.hexEncode bytes = text.map Lib.Hex.lower
  hexDigits : ∀ bytes, ∀ b ∈ t.hexEncode bytes, IsHexDigit b
  hexLength : ∀ bytes, (t.hexEncode bytes).length = 2 * bytes.length
  base64 : ∀ bytes, t.base64Decode (t.base64Encode bytes) = some bytes
  /-- The padding has to be there, and the bits that fill up the last digit have to be zero. -/
  base64Text : ∀ text bytes, t.base64Decode text = some bytes → t.base64Encode bytes = text
  base64Digits : ∀ bytes, ∀ b ∈ t.base64Encode bytes, IsBase64Digit b ∨ b = base64Pad
  base64Padded : ∀ bytes, bytes.length % 3 ≠ 0 → base64Pad ∈ t.base64Encode bytes

/-- A pair of codecs that do what is documented. -/
def TextCodecs.standard : TextCodecs :=
  ⟨Lib.Hex.encode, Lib.Hex.decode, Lib.Base64.encode, Lib.Base64.decode⟩

theorem TextCodecs.standard_lawful : standard.Lawful where
  hex bytes := Lib.Hex.decode_encode bytes
  hexCase := Lib.Hex.decode_lower
  hexText _ _ h := (Lib.Hex.decode_eq_some_iff.mp h).symm
  hexDigits := Lib.Hex.encode_forall (by decide +kernel)
  hexLength := Lib.Hex.length_encode
  base64 := Lib.Base64.decode_encode
  base64Text _ _ := Lib.Base64.encode_of_decode
  base64Digits := Lib.Base64.encode_forall (.inr rfl) (by decide +kernel)
  base64Padded _ := Lib.Base64.pad_mem_encode

/-! ## The variable -/

/-- `key_from_env`, of what the environment has. -/
def keyFromEnv (t : TextCodecs) (raw : Option String) : Except String (Option Bytes) :=
  match raw.filter fun value => !isBlank value with
  | none => .ok none
  | some raw =>
      match (t.hexDecode (utf8 raw)).or (t.base64Decode (utf8 raw)) with
      | none => .error "KV_AT_REST_KEY must be 32-byte hex or base64"
      | some decoded =>
          if decoded.length = 32 then .ok (some decoded)
          else .error "KV_AT_REST_KEY must decode to exactly 32 bytes"

/-- `enabled`. -/
def encryptionEnabled (t : TextCodecs) (raw : Option String) : Bool :=
  match keyFromEnv t raw with
  | .ok key => key.isSome
  | .error _ => false

theorem keyFromEnv_of_enabled {t : TextCodecs} {raw : Option String}
    (h : encryptionEnabled t raw = true) : ∃ key, keyFromEnv t raw = .ok (some key) := by
  unfold encryptionEnabled at h
  split at h
  · next key hkey =>
      obtain ⟨key, rfl⟩ := Option.isSome_iff_exists.mp h
      exact ⟨key, hkey⟩
  · cases h

/-! ## The texts of a key -/

/-- The text is one of the key: its digits up to the case of letters, or its base64. -/
def IsTextOf (t : TextCodecs) (text : String) (key : Bytes) : Prop :=
  (utf8 text).map Lib.Hex.lower = t.hexEncode key ∨ utf8 text = t.base64Encode key

/-- A character of one byte that is no blank. -/
def Printed (b : UInt8) : Prop := b.toNat < 128 ∧ isWhitespace (Char.ofNat b.toNat) = false

instance (b : UInt8) : Decidable (Printed b) := inferInstanceAs (Decidable (_ ∧ _))

/-- The text of characters of one byte. -/
def asciiText (bytes : Bytes) : String := String.ofList (bytes.map fun b => Char.ofNat b.toNat)

theorem utf8_asciiText {bytes : Bytes} (h : ∀ b ∈ bytes, Printed b) : utf8 (asciiText bytes) = bytes := by
  have hchar : ∀ b, Printed b → utf8 (String.singleton (Char.ofNat b.toNat)) = [b] := by decide +kernel
  induction bytes with
  | nil => decide +kernel
  | cons b bytes ih =>
      have hcons : asciiText (b :: bytes) = String.singleton (Char.ofNat b.toNat) ++ asciiText bytes := by
        apply String.toList_injective
        simp [asciiText]
      have hrest := ih fun b' hb' => h b' (List.mem_cons_of_mem _ hb')
      rw [hcons, utf8_append, hchar b (h b List.mem_cons_self), hrest]
      rfl

theorem utf8_injective : Function.Injective utf8 := by
  intro s t h
  have hs := fromUtf8_utf8 s
  rw [h, fromUtf8_utf8] at hs
  exact (Option.some.inj hs).symm

theorem isBlank_of_printed {text : String} (h : ∀ b ∈ utf8 text, Printed b) (hsome : utf8 text ≠ []) :
    isBlank text = false := by
  have htext : asciiText (utf8 text) = text := utf8_injective (utf8_asciiText h)
  obtain ⟨b, rest, hbytes⟩ := List.exists_cons_of_ne_nil hsome
  rw [hbytes] at h htext
  rw [← htext]
  simp [isBlank, asciiText, (h b List.mem_cons_self).2]

/-- A character whose lower case is a digit is printed. -/
theorem printed_of_hexDigit {b : UInt8} : IsHexDigit (Lib.Hex.lower b) → Printed b := by
  have hall : ∀ b, IsHexDigit (Lib.Hex.lower b) → Printed b := by decide +kernel
  exact hall b

theorem printed_of_base64Digit {b : UInt8} : IsBase64Digit b ∨ b = base64Pad → Printed b := by
  have hall : ∀ b, IsBase64Digit b ∨ b = base64Pad → Printed b := by decide +kernel
  exact hall b

namespace TextCodecs.Lawful

variable {t : TextCodecs} (ht : t.Lawful)

include ht

theorem hexDecode_eq_some_iff {text bytes : Bytes} :
    t.hexDecode text = some bytes ↔ text.map Lib.Hex.lower = t.hexEncode bytes := by
  refine ⟨fun h => (ht.hexText text bytes h).symm, fun h => ?_⟩
  rw [← ht.hexCase, h, ht.hex]

theorem base64Decode_eq_some_iff {text bytes : Bytes} :
    t.base64Decode text = some bytes ↔ text = t.base64Encode bytes :=
  ⟨fun h => (ht.base64Text text bytes h).symm, fun h => h ▸ ht.base64 bytes⟩

theorem base64_printed (bytes : Bytes) : ∀ b ∈ t.base64Encode bytes, Printed b := fun b hb =>
  printed_of_base64Digit (ht.base64Digits bytes b hb)

theorem base64_text (bytes : Bytes) : ∃ s, t.base64Encode bytes = utf8 s :=
  ⟨_, (utf8_asciiText (ht.base64_printed bytes)).symm⟩

/-- The padding is no digit, so padded base64 is not taken for digits. -/
theorem hexDecode_base64 {key : Bytes} (h : key.length % 3 ≠ 0) :
    t.hexDecode (t.base64Encode key) = none := by
  by_contra hsome
  obtain ⟨bytes, hbytes⟩ := Option.ne_none_iff_exists'.mp hsome
  have hpad : Lib.Hex.lower base64Pad ∈ t.hexEncode bytes := by
    rw [ht.hexText _ bytes hbytes]
    exact List.mem_map_of_mem (ht.base64Padded key h)
  have hdigit : ¬ IsHexDigit (Lib.Hex.lower base64Pad) := by decide
  exact hdigit (ht.hexDigits bytes _ hpad)

/-- A text of a key of 32 bytes is not blank. -/
theorem isBlank_text {text : String} {key : Bytes} (htext : IsTextOf t text key) (hkey : key.length = 32) :
    isBlank text = false := by
  rcases htext with hhex | hbase64
  · refine isBlank_of_printed (fun b hb => printed_of_hexDigit ?_) fun hnil => ?_
    · exact ht.hexDigits key _ (hhex ▸ List.mem_map_of_mem hb)
    · have hlength := ht.hexLength key
      rw [← hhex, hnil, List.map_nil, List.length_nil] at hlength
      omega
  · refine isBlank_of_printed (fun b hb => ?_) fun hnil => ?_
    · exact ht.base64_printed key b (hbase64 ▸ hb)
    · have hpad := ht.base64Padded key (by omega)
      rw [← hbase64, hnil] at hpad
      cases hpad

end TextCodecs.Lawful

/-- For every content of the variable: a key is taken from it exactly if it has 32 bytes and the content is
one of its texts. -/
theorem key_accepted_iff (t : TextCodecs) (ht : t.Lawful) (raw : Option String) (key : Bytes) :
    keyFromEnv t raw = .ok (some key) ↔
      key.length = 32 ∧ ∃ text, raw = some text ∧ IsTextOf t text key := by
  constructor
  · intro h
    unfold keyFromEnv at h
    split at h
    · cases h
    · next text htext =>
        obtain ⟨rfl, -⟩ := Option.filter_eq_some_iff.mp htext
        split at h
        · cases h
        · next decoded hdecoded =>
            split at h
            · next hlength =>
                cases h
                refine ⟨hlength, text, rfl, ?_⟩
                rcases Option.or_eq_some_iff.mp hdecoded with hhex | ⟨-, hbase64⟩
                · exact .inl (ht.hexDecode_eq_some_iff.mp hhex)
                · exact .inr (ht.base64Decode_eq_some_iff.mp hbase64)
            · cases h
  · rintro ⟨hlength, text, rfl, htext⟩
    have hdecoded : (t.hexDecode (utf8 text)).or (t.base64Decode (utf8 text)) = some key := by
      rcases htext with hhex | hbase64
      · rw [ht.hexDecode_eq_some_iff.mpr hhex, Option.some_or]
      · rw [hbase64, ht.hexDecode_base64 (by omega), Option.none_or, ht.base64]
    simp [keyFromEnv, Option.filter, ht.isBlank_text htext hlength, hdecoded, hlength]

/-- The digits of the key 0, 1, 2, ... -/
def sampleDigits : String := "000102030405060708090A0B0C0D0E0F101112131415161718191a1b1c1d1e1f"

/-- Its base64. -/
def sampleBase64 : String := "AAECAwQFBgcICQoLDA0ODxAREhMUFRYXGBkaGxwdHh8="

/-- Both texts give the key. -/
theorem key_accepted_iff_sample :
    keyFromEnv .standard (some sampleDigits) = .ok (some Crypto.sampleKey) ∧
      keyFromEnv .standard (some sampleBase64) = .ok (some Crypto.sampleKey) :=
  ⟨(key_accepted_iff .standard TextCodecs.standard_lawful _ _).mpr
      ⟨rfl, sampleDigits, rfl, .inl (by decide +kernel)⟩,
    (key_accepted_iff .standard TextCodecs.standard_lawful _ _).mpr
      ⟨rfl, sampleBase64, rfl, .inr (by decide +kernel)⟩⟩

/-- The text is not trimmed. -/
example : keyFromEnv .standard (some (sampleBase64 ++ "\n"))
    = .error "KV_AT_REST_KEY must be 32-byte hex or base64" := by
  decide +kernel

/-! ## A log and the texts in the environment -/

/-- The packages' functions, with a text in the environment. -/
def Crypto.under (c : Crypto) (t : TextCodecs) (raw : Option String) : Crypto :=
  { c with
    keyFromEnv := Daikon.keyFromEnv t raw
    base64Encode := t.base64Encode
    base64Decode := t.base64Decode }

/-- The codec of the log, with a text in the environment. -/
def Codec.under (c : Codec) (t : TextCodecs) (raw : Option String) : Codec :=
  { c with crypto := c.crypto.under t raw }

/-- The cipher opens what it has sealed. -/
def Crypto.Opens (c : Crypto) : Prop := ∀ key nonce data ciphertext,
  c.cipherEncrypt key nonce data = some ciphertext → c.cipherDecrypt key nonce ciphertext = some data

/-- What encrypted data are refused with; nothing with a key. -/
def keyRefusal (t : TextCodecs) (raw : Option String) : Option String :=
  match keyFromEnv t raw with
  | .error e => some e
  | .ok none => some "encrypted data requires KV_AT_REST_KEY"
  | .ok (some _) => none

/-- One append, with the text in the environment at its time. -/
structure TextAppend where
  raw : Option String
  nonce : Option Nonce
  entry : WalEntry

/-- The line that the append writes. -/
def TextAppend.encodedLine (c : Codec) (t : TextCodecs) (a : TextAppend) : Except KvStoreError Bytes :=
  (c.under t a.raw).encodeLine a.nonce a.entry

/-- `append`; nothing is written of an entry that cannot be encoded. -/
def LogFile.appendUnder (c : Codec) (t : TextCodecs) (s : LogFile) (a : TextAppend) : LogFile :=
  match a.encodedLine c t with
  | .error _ => s
  | .ok line => ⟨s.file ++ line ++ [newline], s.acknowledged ++ [a.entry]⟩

/-- The appends that return `Ok`. -/
def keptAppends (c : Codec) (t : TextCodecs) (appends : List TextAppend) : List TextAppend :=
  appends.filter fun a => (a.encodedLine c t).isOk

section

variable {c : Codec} {t : TextCodecs} (ht : t.Lawful) (hc : (c.under t none).Lawful)
  (hcipher : c.crypto.Opens)

include ht hc hcipher in
theorem Codec.Lawful.under (raw : Option String) : (c.under t raw).Lawful where
  object := hc.object
  oneLine := hc.oneLine
  roundTrip := hc.roundTrip
  crypto key _ :=
    { text := ht.base64_text
      oneLine := fun bytes => by
        have hchar : ∀ b, Printed b → b ≠ 10 ∧ b ≠ 13 := by decide +kernel
        exact ⟨fun h => (hchar 10 (ht.base64_printed bytes 10 h)).1 rfl,
          fun h => (hchar 13 (ht.base64_printed bytes 13 h)).2 rfl⟩
      base64 := ht.base64
      cipher := hcipher key }

/-! ### One line -/

namespace TextAppend

variable {a : TextAppend} {line : Bytes}

/-- A line is the text of its entry, or sealed with the key that the environment had. -/
theorem line_cases (h : a.encodedLine c t = .ok line) :
    (encryptionEnabled t a.raw = false ∧ c.toVec a.entry = .ok line) ∨
      ((∃ key, keyFromEnv t a.raw = .ok (some key)) ∧
        ∃ payload, line = utf8 encPrefix ++ t.base64Encode payload) := by
  unfold encodedLine Codec.encodeLine at h
  split at h
  · cases h
  · next json hjson =>
      split at h
      · cases h
      · next out hout =>
          obtain rfl := Except.ok.inj h
          have hcrypto : (c.crypto.under t a.raw).encrypt a.nonce json = .ok out := hout
          unfold Crypto.encrypt at hcrypto
          cases hkey : keyFromEnv t a.raw with
          | error e =>
              simp only [show (c.crypto.under t a.raw).keyFromEnv = _ from hkey] at hcrypto
              cases hcrypto
          | ok key =>
              simp only [show (c.crypto.under t a.raw).keyFromEnv = _ from hkey] at hcrypto
              cases key with
              | none =>
                  cases hcrypto
                  exact .inl ⟨by rw [encryptionEnabled, hkey]; rfl, hjson⟩
              | some key =>
                  refine .inr ⟨⟨key, rfl⟩, ?_⟩
                  simp only at hcrypto
                  split at hcrypto
                  · cases hcrypto
                  · split at hcrypto
                    · cases hcrypto
                    · exact ⟨_, (Except.ok.inj hcrypto).symm⟩

include ht hc hcipher in
/-- A line that is not sealed is read under any text. -/
theorem line_plain (h : a.encodedLine c t = .ok line) (hplain : encryptionEnabled t a.raw = false)
    (raw : Option String) : (c.under t raw).Reads line a.entry := by
  rcases line_cases h with ⟨-, hjson⟩ | ⟨⟨key, hkey⟩, -⟩
  · exact Codec.object_reads (hc.under ht hcipher raw) hjson
  · rw [encryptionEnabled, hkey] at hplain
    cases hplain

include ht hc hcipher in
/-- A line is read under any text for the same key. -/
theorem line_same (h : a.encodedLine c t = .ok line) {raw : Option String}
    (hsame : keyFromEnv t a.raw = keyFromEnv t raw) : (c.under t raw).Reads line a.entry := by
  have hcodec : c.under t a.raw = c.under t raw := by
    rw [Codec.under, Codec.under, Crypto.under, Crypto.under, hsame]
  rw [encodedLine, hcodec] at h
  exact Codec.encodeLine_reads (hc.under ht hcipher raw) h

include ht in
/-- A sealed line is refused where there is no key. -/
theorem line_refused (h : a.encodedLine c t = .ok line) (hsealed : encryptionEnabled t a.raw = true)
    {raw : Option String} {e : String} (hrefusal : keyRefusal t raw = some e) (lineNo : Nat) :
    (c.under t raw).readLine lineNo line
      = .error (.operationFailed s!"Failed to decrypt WAL line {lineNo}: {e}") := by
  rcases line_cases h with ⟨hplain, -⟩ | ⟨-, payload, rfl⟩
  · rw [hplain] at hsealed
    cases hsealed
  · obtain ⟨text, htext⟩ := ht.base64_text payload
    have hblank : isBlank (encPrefix ++ text) = false := by
      rw [show encPrefix = String.singleton 'D' ++ "AIKON-ENC1:" by decide, String.append_assoc]
      exact Codec.isBlank_of_head (by decide) _
    have hdecrypt : (c.crypto.under t raw).decrypt (utf8 encPrefix ++ t.base64Encode payload) = .error e := by
      rw [Crypto.decrypt, if_neg (not_not.mpr (List.prefix_append _ _))]
      unfold keyRefusal at hrefusal
      split at hrefusal
      · next hkey =>
          cases hrefusal
          rw [show (c.crypto.under t raw).keyFromEnv = _ from hkey]
      · next hkey =>
          cases hrefusal
          rw [show (c.crypto.under t raw).keyFromEnv = _ from hkey]
      · cases hrefusal
    rw [htext, ← utf8_append] at hdecrypt ⊢
    unfold Codec.readLine
    rw [fromUtf8_utf8]
    simp only [hblank, show (c.under t raw).crypto.decrypt _ = _ from hdecrypt]
    rfl

end TextAppend

/-! ### The file -/

/-- The bytes of the line, where there is one. -/
def TextAppend.bytes (c : Codec) (t : TextCodecs) (a : TextAppend) : Bytes :=
  (a.encodedLine c t).toOption.getD []

theorem line_of_kept {appends : List TextAppend} {a : TextAppend} (h : a ∈ keptAppends c t appends) :
    a.encodedLine c t = .ok (a.bytes c t) := by
  have hok := (List.mem_filter.mp h).2
  unfold TextAppend.bytes
  cases hline : a.encodedLine c t with
  | error e =>
      rw [hline] at hok
      cases hok
  | ok line => rfl

include ht hc hcipher in
/-- The lines of the file are those of the appends that return `Ok`. -/
theorem LogFile.splitLines_appendUnder (appends : List TextAppend) :
    splitLines newline (appends.foldl (appendUnder c t) {}).file
      = ((keptAppends c t appends).map (·.bytes c t), []) := by
  induction appends using List.reverseRecOn with
  | nil => rfl
  | append_singleton appends a ih =>
      have hkept : keptAppends c t (appends ++ [a]) = keptAppends c t appends ++ keptAppends c t [a] :=
        List.filter_append appends [a]
      rw [List.foldl_append, List.foldl_cons, List.foldl_nil, hkept, List.map_append]
      generalize appends.foldl (appendUnder c t) {} = s at ih ⊢
      unfold appendUnder
      cases hline : a.encodedLine c t with
      | error e =>
          have hnone : keptAppends c t [a] = [] := by simp [keptAppends, hline, Except.isOk, Except.toBool]
          rw [hnone, List.map_nil, List.append_nil]
          exact ih
      | ok line =>
          have hone : keptAppends c t [a] = [a] := by simp [keptAppends, hline, Except.isOk, Except.toBool]
          have hbytes : a.bytes c t = line := by rw [TextAppend.bytes, hline]; rfl
          have hreads := TextAppend.line_same ht hc hcipher hline rfl
          simp only
          rw [splitLines_concat, splitLines_append_of_notMem _ hreads.oneLine, ih, hone, List.map_singleton,
            hbytes, List.nil_append]

include ht hc hcipher in
/-- The lines that `read_all` goes through. -/
theorem LogFile.linesOf_appendUnder (appends : List TextAppend) :
    linesOf (appends.foldl (appendUnder c t) {}).file = (keptAppends c t appends).map (·.bytes c t) := by
  rw [linesOf, splitLines_appendUnder ht hc hcipher, if_pos rfl, List.append_nil, List.map_map]
  refine List.map_congr_left fun a ha => ?_
  exact (TextAppend.line_same ht hc hcipher (line_of_kept ha) rfl).noCr

theorem readsTo_lines {raw : Option String} {kept : List TextAppend}
    (hreads : ∀ a ∈ kept, (c.under t raw).Reads (a.bytes c t) a.entry) :
    (c.under t raw).ReadsTo (kept.map (·.bytes c t)) (kept.map (·.entry)) := by
  induction kept with
  | nil => exact .nil _
  | cons a kept ih =>
      rw [List.forall_mem_cons] at hreads
      exact hreads.1.readsTo.append (ih hreads.2)

end

open LogFile in
/-- Entries are appended one after the other, each under its own text in the environment, where all texts
that give a key give the same one; then the log is read under a text. With a key, or if nothing was encrypted,
`read_all` gives the entries of all appends that returned `Ok`. Without one it stops at the first that was
encrypted, with the number of its line. -/
theorem log_under_texts (t : TextCodecs) (ht : t.Lawful) (c : Codec) (hc : (c.under t none).Lawful)
    (hcipher : c.crypto.Opens) (key : Bytes) (appends : List TextAppend) (raw : Option String)
    (hkey : ∀ r ∈ raw :: appends.map (·.raw), ∀ k, keyFromEnv t r = .ok (some k) → k = key) :
    (encryptionEnabled t raw = true ∨ (∀ a ∈ keptAppends c t appends, encryptionEnabled t a.raw = false) →
      (c.under t raw).readAll (appends.foldl (appendUnder c t) {}).file
        = .ok ((keptAppends c t appends).map (·.entry))) ∧
    (∀ e before a after, keyRefusal t raw = some e → keptAppends c t appends = before ++ a :: after →
      (∀ b ∈ before, encryptionEnabled t b.raw = false) → encryptionEnabled t a.raw = true →
      (c.under t raw).readAll (appends.foldl (appendUnder c t) {}).file
        = .error (.operationFailed s!"Failed to decrypt WAL line {before.length}: {e}")) := by
  rw [Codec.readAll, linesOf_appendUnder ht hc hcipher]
  constructor
  · intro hopens
    refine readsTo_lines (fun a ha => ?_) 0
    by_cases hplain : encryptionEnabled t a.raw = false
    · exact TextAppend.line_plain ht hc hcipher (line_of_kept ha) hplain raw
    · -- it was sealed with the key that is at hand
      have henabled := hopens.resolve_right fun hall => hplain (hall a ha)
      obtain ⟨k, hk⟩ := keyFromEnv_of_enabled henabled
      obtain ⟨k', hk'⟩ := keyFromEnv_of_enabled (Bool.not_eq_false _ ▸ hplain)
      have hk'eq := hkey _ (List.mem_cons_of_mem _ (List.mem_map_of_mem (List.mem_filter.mp ha).1)) k' hk'
      have hsame : k' = k := hk'eq.trans (hkey _ List.mem_cons_self k hk).symm
      exact TextAppend.line_same ht hc hcipher (line_of_kept ha) (by rw [hk, hk', hsame])
  · intro e before a after hrefusal hkept hplain hsealed
    have hmem : ∀ b ∈ before ++ a :: after, b.encodedLine c t = .ok (b.bytes c t) := fun b hb =>
      line_of_kept (hkept ▸ hb)
    have hbefore : (c.under t raw).ReadsTo (before.map (·.bytes c t)) (before.map (·.entry)) :=
      readsTo_lines fun b hb => TextAppend.line_plain ht hc hcipher (hmem b (List.mem_append_left _ hb))
        (hplain b hb) raw
    have hline := TextAppend.line_refused ht (hmem a (by simp)) hsealed hrefusal before.length
    rw [hkept, List.map_append, Codec.readLines_append, hbefore 0, List.map_cons]
    simp only [List.length_map, Nat.zero_add, Codec.readLines, hline]

theorem keyedDeletions_opens : LogFile.keyedDeletions.crypto.Opens := by
  intro key nonce data ciphertext h
  simp only [LogFile.keyedDeletions, Crypto.keyed] at h ⊢
  split at h
  · next hknown =>
      cases h
      rw [if_pos ⟨hknown.1, hknown.2.1, rfl⟩, hknown.2.2]
  · cases h

open LogFile in
/-- One entry is encrypted with the key from its digits and one is not; they are read with the key from its
base64. -/
theorem log_under_texts_base64 : (keyedDeletions.under .standard (some sampleBase64)).readAll
    ([⟨some sampleDigits, some Crypto.sampleNonce, ⟨0, .delete "a"⟩⟩, ⟨none, none, ⟨0, .delete "b"⟩⟩].foldl
      (appendUnder keyedDeletions .standard) {}).file = .ok [⟨0, .delete "a"⟩, ⟨0, .delete "b"⟩] := by
  have hlawful : (keyedDeletions.under .standard none).Lawful :=
    ⟨Codec.deletions_lawful.object, Codec.deletions_lawful.oneLine, Codec.deletions_lawful.roundTrip,
      fun key h => by cases h⟩
  have hread := (log_under_texts .standard TextCodecs.standard_lawful keyedDeletions hlawful
    keyedDeletions_opens Crypto.sampleKey
    [⟨some sampleDigits, some Crypto.sampleNonce, ⟨0, .delete "a"⟩⟩, ⟨none, none, ⟨0, .delete "b"⟩⟩]
    (some sampleBase64) ?_).1 (.inl (by decide +kernel))
  · exact hread.trans (by decide +kernel)
  · have hbase64 : keyFromEnv .standard (some sampleBase64) = .ok (some Crypto.sampleKey) := by decide +kernel
    have hdigits : keyFromEnv .standard (some sampleDigits) = .ok (some Crypto.sampleKey) := by decide +kernel
    simp only [List.map_cons, List.map_nil, List.forall_mem_cons, hbase64, hdigits]
    refine ⟨fun k h => by cases h; rfl, fun k h => by cases h; rfl, (fun k h => by cases h), ?_⟩
    exact fun r hr => absurd hr List.not_mem_nil

end Daikon
