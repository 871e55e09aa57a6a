/-
# Daikon.Wal.AtRest -- encryption at rest, switched on and off

`encrypt` marks what it encrypts and passes the rest on as it is; `decrypt` goes by the mark. So the two are
inverse except where unencrypted data begin like encrypted ones (`at_rest_roundTrips_iff`). The lines of the
log never do, with a key or without: a file whose appends were made under either setting is read back to
the last entry (`log_reads_back`).

The lines of the log are a special case of data, as they begin with a brace and not with the mark. Snapshots
are not: compressed bytes may begin in any way, and so may a document that somebody else has written. The
exact condition is therefore on the data, and whoever wants to use it has to say with what the data begin.

The tests at the end have a cipher that knows one pair of text and ciphertext, computed with AES-256-GCM
under the sample key and nonce, so that what is written here is what the program would write.
-/
import Daikon.Lib.Base64
import Daikon.Wal.Torn

namespace Daikon

/-! ## Data -/

namespace Crypto

/-- Whatever encrypting the data gives is decrypted to the data. -/
def RoundTrips (c : Crypto) (data : Bytes) : Prop :=
  ∀ nonce out, c.encrypt nonce data = .ok out → c.decrypt out = .ok data

theorem roundTrips_of_key {c : Crypto} {key : Bytes} (hkey : c.keyFromEnv = .ok (some key))
    (hc : c.Lawful key) (data : Bytes) : c.RoundTrips data := by
  intro nonce out h
  unfold encrypt at h
  rw [hkey] at h
  cases nonce with
  | none => cases h
  | some nonce =>
      cases hcipher : c.cipherEncrypt key nonce data with
      | none => simp only [hcipher] at h; cases h
      | some ciphertext =>
          simp only [hcipher] at h
          cases h
          exact decrypt_encrypted hkey hc hcipher

/-- Without a key the data are written as they are, and taken for encrypted if they look like it. -/
theorem roundTrips_without_key {c : Crypto} (hkey : c.keyFromEnv = .ok none) (data : Bytes) :
    c.RoundTrips data ↔ ¬ utf8 encPrefix <+: data := by
  have hencrypt : ∀ nonce, c.encrypt nonce data = .ok data := fun nonce => by rw [encrypt, hkey]
  constructor
  · intro h hprefix
    have hback := h none data (hencrypt none)
    rw [decrypt, if_neg (not_not.mpr hprefix), hkey] at hback
    cases hback
  · intro hplain nonce out hout
    rw [hencrypt nonce] at hout
    cases hout
    exact decrypt_plain c hplain

/-- For any data and any key configuration, what `encrypt` gives is decrypted to the data if and only if a
key is set or the data do not begin with the prefix of encrypted data. -/
theorem at_rest_roundTrips_iff (c : Crypto) (data : Bytes)
    (hc : ∀ key, c.keyFromEnv = .ok (some key) → c.Lawful key) :
    c.RoundTrips data ↔ (c.keyFromEnv = .ok none → ¬ utf8 encPrefix <+: data) := by
  cases hkey : c.keyFromEnv with
  | error e =>
      -- a key that is no key: nothing is encrypted
      refine ⟨fun _ hnone => (by cases hnone), fun _ nonce out h => ?_⟩
      rw [encrypt, hkey] at h
      cases h
  | ok key =>
      cases key with
      | none =>
          rw [roundTrips_without_key hkey data]
          exact ⟨fun h _ => h, fun h => h rfl⟩
      | some key =>
          exact ⟨fun _ hnone => (by cases hnone), fun _ => roundTrips_of_key hkey (hc key hkey) data⟩

/-! ### A key -/

/-- The bytes 0, 1, 2, ... as the key and as the nonce. -/
def sampleKey : Bytes := (List.range 32).map UInt8.ofNat

/-- A nonce to go with it. -/
def sampleNonce : Nonce := ⟨(List.range nonceSize).map UInt8.ofNat, rfl⟩

/-- The key is set, and of AES-256-GCM one pair of data and ciphertext under the sample nonce is known. -/
def keyed (data ciphertext : Bytes) : Crypto where
  keyFromEnv := .ok (some sampleKey)
  cipherEncrypt key nonce plain :=
    if key = sampleKey ∧ nonce.bytes = sampleNonce.bytes ∧ plain = data then some ciphertext else none
  cipherDecrypt key nonce cipher :=
    if key = sampleKey ∧ nonce.bytes = sampleNonce.bytes ∧ cipher = ciphertext then some data else none
  base64Encode := Lib.Base64.encode
  base64Decode := Lib.Base64.decode

open Lib.Base64 in
/-- The characters of base64 are one byte each. -/
theorem base64_text (bytes : Bytes) : ∃ s, encode bytes = utf8 s := by
  have hdigit : ∀ n < 64, utf8 (String.singleton (Char.ofNat (digit n).toNat)) = [digit n] := by
    decide +kernel
  have hchar : ∀ b ∈ encode bytes, ∃ s, [b] = utf8 s :=
    encode_forall ⟨"=", by decide +kernel⟩ (fun n hn => ⟨_, (hdigit n hn).symm⟩) bytes
  generalize encode bytes = text at hchar
  induction text with
  | nil => exact ⟨"", by decide +kernel⟩
  | cons b text ih =>
      obtain ⟨s, hs⟩ := hchar b List.mem_cons_self
      obtain ⟨t, ht⟩ := ih fun b hb => hchar b (List.mem_cons_of_mem _ hb)
      exact ⟨s ++ t, by rw [utf8_append, ← hs, ← ht, List.singleton_append]⟩

open Lib.Base64 in
theorem keyed_lawful (data ciphertext : Bytes) : (keyed data ciphertext).Lawful sampleKey where
  text := base64_text
  oneLine := fun bytes => by
    have hchar : ∀ b ∈ encode bytes, b ≠ 10 ∧ b ≠ 13 :=
      encode_forall (by decide) (by decide +kernel) bytes
    exact ⟨fun h => (hchar 10 h).1 rfl, fun h => (hchar 13 h).2 rfl⟩
  base64 := decode_encode
  cipher := fun nonce plain cipher h => by
    simp only [keyed] at h ⊢
    split at h
    · next hknown =>
        cases h
        rw [if_pos ⟨trivial, hknown.2.1, rfl⟩, hknown.2.2]
    · cases h

/-- What AES-256-GCM makes of `hello`, and its tag. -/
def sealedHello : Bytes :=
  [47, 103, 186, 119, 170, 39, 151, 255, 53, 59, 138, 4, 109, 40, 35, 109, 205, 157, 5, 123, 187]

/-- With the key, and without it. -/
theorem at_rest_roundTrips_iff_hello :
    (keyed (utf8 "hello") sealedHello).RoundTrips (utf8 "hello") ∧
      (Codec.plain []).crypto.RoundTrips (utf8 "hello") :=
  ⟨(at_rest_roundTrips_iff _ _ fun _ h => by cases h; exact keyed_lawful _ _).mpr fun h => (by cases h),
    (at_rest_roundTrips_iff _ _ fun _ h => by cases h).mpr fun _ => by decide +kernel⟩

/-- Without a key, what begins like encrypted data is passed on as it is and then not read back. -/
theorem prefixed_plaintext_refused :
    (Codec.plain []).crypto.encrypt none (utf8 "DAIKON-ENC1:hello") = .ok (utf8 "DAIKON-ENC1:hello") ∧
    (Codec.plain []).crypto.decrypt (utf8 "DAIKON-ENC1:hello")
      = .error "encrypted data requires KV_AT_REST_KEY" ∧
    ¬ (Codec.plain []).crypto.RoundTrips (utf8 "DAIKON-ENC1:hello") := by
  have hprefix : utf8 encPrefix <+: utf8 "DAIKON-ENC1:hello" := by decide +kernel
  refine ⟨rfl, ?_, fun h => (roundTrips_without_key rfl _).mp h hprefix⟩
  rw [decrypt, if_neg (not_not.mpr hprefix)]
  rfl

end Crypto

/-! ## The log -/

namespace Codec

/-- The codec while no key is set. -/
def keyless (c : Codec) : Codec := { c with crypto := { c.crypto with keyFromEnv := .ok none } }

/-- The line that `append` writes under either setting. -/
def encodeLineAs (c : Codec) (encrypted : Bool) (nonce : Option Nonce) (entry : WalEntry) :
    Except KvStoreError Bytes :=
  if encrypted then c.encodeLine nonce entry else c.keyless.encodeLine nonce entry

/-- A line is read as its entry also where it was written without the key. -/
theorem encodeLineAs_reads {c : Codec} (hc : c.Lawful) {encrypted : Bool} {nonce : Option Nonce}
    {entry : WalEntry} {line : Bytes} (h : c.encodeLineAs encrypted nonce entry = .ok line) :
    c.Reads line entry := by
  unfold encodeLineAs at h
  cases encrypted with
  | true => exact encodeLine_reads hc h
  | false =>
      -- the line is the text of the entry
      cases hjson : c.toVec entry with
      | error e =>
          rw [if_neg Bool.false_ne_true, encodeLine, show c.keyless.toVec entry = _ from hjson] at h
          cases h
      | ok json =>
          rw [if_neg Bool.false_ne_true, encodeLine, show c.keyless.toVec entry = _ from hjson] at h
          cases h
          exact object_reads hc hjson

end Codec

namespace LogFile

open Lib (splitLines splitLines_append_of_notMem splitLines_concat)

/-- One append, under the setting that encryption at rest has at its time. -/
structure SwitchedAppend where
  encrypted : Bool
  nonce : Option Nonce
  entry : WalEntry

/-- `append`; nothing is written of an entry that cannot be encoded. -/
def append (c : Codec) (s : LogFile) (a : SwitchedAppend) : LogFile :=
  match c.encodeLineAs a.encrypted a.nonce a.entry with
  | .error _ => s
  | .ok line => ⟨s.file ++ line ++ [newline], s.acknowledged ++ [a.entry]⟩

/-- Every line has ended, and the lines are read to the acknowledged entries. -/
structure Exact (c : Codec) (s : LogFile) : Prop where
  lines : c.ReadsTo ((splitLines newline s.file).1.map stripCr) s.acknowledged
  rest : (splitLines newline s.file).2 = []

theorem Exact.append {c : Codec} (hc : c.Lawful) {s : LogFile} (h : Exact c s) (a : SwitchedAppend) :
    Exact c (s.append c a) := by
  unfold LogFile.append
  cases hline : c.encodeLineAs a.encrypted a.nonce a.entry with
  | error e => exact h
  | ok line =>
      have hreads := Codec.encodeLineAs_reads hc hline
      have hsplit : splitLines newline (s.file ++ line ++ [newline])
          = ((splitLines newline s.file).1 ++ [line], []) := by
        rw [splitLines_concat, splitLines_append_of_notMem _ hreads.oneLine, h.rest, List.nil_append]
      refine ⟨?_, ?_⟩
      · simp only [hsplit, List.map_append, List.map_singleton, hreads.noCr]
        exact h.lines.append hreads.readsTo
      · simp only [hsplit]

theorem Exact.readAll {c : Codec} {s : LogFile} (h : Exact c s) : c.readAll s.file = .ok s.acknowledged := by
  rw [Codec.readAll, linesOf, if_pos h.rest, List.append_nil]
  exact h.lines 0

theorem exact_foldl {c : Codec} (hc : c.Lawful) (appends : List SwitchedAppend) : ∀ s : LogFile,
    Exact c s → Exact c (appends.foldl (append c) s) := by
  induction appends with
  | nil => exact fun _ h => h
  | cons a appends ih => exact fun s h => ih _ (h.append hc a)

/-- The appends that return `Ok` are acknowledged, each with its entry. -/
theorem acknowledged_foldl (c : Codec) (appends : List SwitchedAppend) : ∀ s : LogFile,
    (appends.foldl (append c) s).acknowledged = s.acknowledged ++
      (appends.filter fun a => (c.encodeLineAs a.encrypted a.nonce a.entry).isOk).map (·.entry) := by
  induction appends with
  | nil => exact fun s => (List.append_nil _).symm
  | cons a appends ih =>
      intro s
      rw [List.foldl_cons, ih, List.filter_cons]
      unfold append
      cases c.encodeLineAs a.encrypted a.nonce a.entry with
      | error e => rfl
      | ok line => exact List.append_assoc _ _ _

/-- Entries are appended one after the other, encryption being switched on and off between them, and read
with the key at hand: `read_all` gives exactly those whose append returned `Ok`, in order. If all did, these
are all. -/
theorem log_reads_back (c : Codec) (hc : c.Lawful) (appends : List SwitchedAppend) :
    c.readAll (appends.foldl (append c) {}).file = .ok
      ((appends.filter fun a => (c.encodeLineAs a.encrypted a.nonce a.entry).isOk).map (·.entry)) ∧
    ((∀ a ∈ appends, (c.encodeLineAs a.encrypted a.nonce a.entry).isOk) →
      c.readAll (appends.foldl (append c) {}).file = .ok (appends.map (·.entry))) := by
  have hread : c.readAll (appends.foldl (append c) {}).file = .ok
      ((appends.filter fun a => (c.encodeLineAs a.encrypted a.nonce a.entry).isOk).map (·.entry)) := by
    have hempty : Exact c {} := ⟨Codec.ReadsTo.nil c, rfl⟩
    rw [(exact_foldl hc appends {} hempty).readAll, acknowledged_foldl]
    rfl
  refine ⟨hread, fun hall => ?_⟩
  rw [hread, List.filter_eq_self.mpr hall]

/-- What AES-256-GCM makes of the text of the deletion of `a`, and its tag. -/
def sealedDelete : Bytes :=
  [60, 32, 162, 114, 168, 128, 177, 111, 236, 44, 231, 169, 139, 217, 84, 79, 236, 166, 226, 70, 145,
   15, 54, 19, 86, 69, 223, 254, 63, 6, 112, 144, 59, 50, 234, 185, 227, 132, 70, 221, 86, 136, 93, 134,
   237, 254, 10, 2, 204, 56, 66, 240, 39, 147, 140, 130, 100, 218, 189, 69, 134, 47, 224, 8, 196, 35,
   154, 92, 101]

/-- The deletions of `a` and `b`, with a key. -/
def keyedDeletions : Codec :=
  { Codec.deletions with crypto := .keyed (utf8 (deleteText "a")) sealedDelete }

theorem keyedDeletions_lawful : keyedDeletions.Lawful where
  object := Codec.deletions_lawful.object
  oneLine := Codec.deletions_lawful.oneLine
  roundTrip := Codec.deletions_lawful.roundTrip
  crypto := fun _ hkey => by
    cases hkey
    exact Crypto.keyed_lawful _ _

/-- One entry is encrypted and one is not. -/
theorem log_reads_back_mixed : keyedDeletions.readAll
    ([⟨true, some Crypto.sampleNonce, ⟨0, .delete "a"⟩⟩, ⟨false, none, ⟨0, .delete "b"⟩⟩].foldl
      (append keyedDeletions) {}).file = .ok [⟨0, .delete "a"⟩, ⟨0, .delete "b"⟩] :=
  (log_reads_back keyedDeletions keyedDeletions_lawful _).2 (by decide +kernel)

end LogFile

end Daikon
