/-
# Daikon.Wal.File -- the bytes of the log (`wal.rs`)

`append` writes the encoded line and then, in a second write, the newline. `read_all` goes through
the lines: one that is no UTF-8 or does not decrypt ends it with an error, one that does not parse is
skipped. `encodeLine_reads` is what every result about the file rests on: the line of an entry, with
nothing else on it, is read as that entry.

The file is a list of bytes. Reading it is line by line, with a last line that need not be ended, and an
empty line is no line (`isBlank`). So there are three things that a line can be: an entry, something that is
passed over, or the end of the whole reading; and `Harmless` names the parts of a line for which it is not
the third.

`Codec.Lawful` asks that an entry is written as one line that begins with a brace, and is read back from it,
with or without encryption. The codecs of the examples are tables of the entries that they use, with the
text that the program writes for them.
-/
import Daikon.Lib.Lines
import Daikon.Wal.Crypto
import Daikon.Wal.Entry

namespace Daikon

open Lib (splitLines)

/-- `serde_json` on entries, and the encryption at rest. -/
structure Codec where
  /-- `serde_json::to_vec`. -/
  toVec : WalEntry → Except String Bytes
  /-- `serde_json::from_slice`. -/
  fromSlice : Bytes → Option WalEntry
  crypto : Crypto

/-- The byte that ends a line. -/
def newline : UInt8 := 10

/-- The byte that may stand in front of it. -/
def carriageReturn : UInt8 := 13

/-- The line terminator that `lines()` drops may have a carriage return in front. -/
def stripCr (line : Bytes) : Bytes :=
  if line.getLast? = some carriageReturn then line.dropLast else line

/-- `BufRead::lines`: the last line need not be ended. -/
def linesOf (file : Bytes) : List Bytes :=
  (splitLines newline file).1.map stripCr ++
    (if (splitLines newline file).2 = [] then [] else [(splitLines newline file).2])

namespace Codec

/-- The line that `append` writes for an entry. -/
def encodeLine (c : Codec) (nonce : Option Nonce) (entry : WalEntry) : Except KvStoreError Bytes :=
  match c.toVec entry with
  | .error e => .error (.serializationError e)
  | .ok json =>
      match c.crypto.encrypt nonce json with
      | .error e => .error (.operationFailed e)
      | .ok line => .ok line

/-- One turn of the loop of `read_all`: the entry of the line, if it has one. -/
def readLine (c : Codec) (lineNo : Nat) (line : Bytes) : Except KvStoreError (Option WalEntry) :=
  match fromUtf8 line with
  | none => .error (.operationFailed
      s!"Failed to read WAL line {lineNo}: stream did not contain valid UTF-8")
  | some text =>
      if isBlank text then .ok none
      else
        match c.crypto.decrypt line with
        | .error e => .error (.operationFailed s!"Failed to decrypt WAL line {lineNo}: {e}")
        -- a line that does not parse is logged as a warning and skipped
        | .ok decrypted => .ok (c.fromSlice decrypted)

/-- The loop of `read_all`. -/
def readLines (c : Codec) : Nat → List Bytes → Except KvStoreError (List WalEntry)
  | _, [] => .ok []
  | lineNo, line :: lines =>
      match c.readLine lineNo line with
      | .error e => .error e
      | .ok entry =>
          match readLines c (lineNo + 1) lines with
          | .error e => .error e
          | .ok entries => .ok (entry.toList ++ entries)

/-- `Wal::read_all`. -/
def readAll (c : Codec) (file : Bytes) : Except KvStoreError (List WalEntry) :=
  c.readLines 0 (linesOf file)

/-! ## The line of an entry -/

/-- What the code relies on: an entry is written as a JSON object in one line of UTF-8 and read back
from it, and so is what is encrypted. -/
structure Lawful (c : Codec) : Prop where
  object : ∀ entry json, c.toVec entry = .ok json → ∃ s, json = utf8 ("\x7b" ++ s ++ "\x7d")
  oneLine : ∀ entry json, c.toVec entry = .ok json → newline ∉ json
  roundTrip : ∀ entry json, c.toVec entry = .ok json → c.fromSlice json = some entry
  crypto : ∀ key, c.crypto.keyFromEnv = .ok (some key) → c.crypto.Lawful key

/-- The line is read as the entry. -/
structure Reads (c : Codec) (line : Bytes) (entry : WalEntry) : Prop where
  nonempty : line ≠ []
  oneLine : newline ∉ line
  noCr : stripCr line = line
  read : ∀ lineNo, c.readLine lineNo line = .ok (some entry)

theorem stripCr_of_notMem {line : Bytes} (h : carriageReturn ∉ line) : stripCr line = line := by
  rw [stripCr, if_neg fun hlast => h (List.mem_of_getLast? hlast)]

theorem stripCr_concat {line : Bytes} {b : UInt8} (hb : b ≠ carriageReturn) :
    stripCr (line ++ [b]) = line ++ [b] := by
  rw [stripCr, List.getLast?_concat, if_neg]
  simpa using hb

/-- A line of text that is not blank is what it decrypts and parses to. -/
theorem reads_of {c : Codec} {text : String} {json : Bytes} {entry : WalEntry}
    (hone : newline ∉ utf8 text) (hcr : stripCr (utf8 text) = utf8 text)
    (hblank : isBlank text = false) (hdecrypt : c.crypto.decrypt (utf8 text) = .ok json)
    (hparse : c.fromSlice json = some entry) : c.Reads (utf8 text) entry where
  nonempty hnil := by
    have htext := fromUtf8_utf8 text
    rw [hnil] at htext
    have hempty : text = "" := (Option.some.inj htext).symm.trans rfl
    rw [hempty] at hblank
    cases hblank
  oneLine := hone
  noCr := hcr
  read lineNo := by
    unfold readLine
    rw [fromUtf8_utf8]
    simp only [hblank, hdecrypt, hparse]
    rfl

theorem isBlank_of_head {first : Char} (hfirst : isWhitespace first = false) (s : String) :
    isBlank (String.singleton first ++ s) = false := by
  simp [isBlank, String.toList_append, hfirst]

/-- The text of an entry is read as that entry, with a key or without one. -/
theorem object_reads {c : Codec} (hc : c.Lawful) {entry : WalEntry} {json : Bytes}
    (hjson : c.toVec entry = .ok json) : c.Reads json entry := by
  have hone := hc.oneLine entry json hjson
  have hback := hc.roundTrip entry json hjson
  obtain ⟨s, hobject⟩ := hc.object entry json hjson
  -- an object does not begin like encrypted data
  have hplain : ¬ utf8 encPrefix <+: utf8 ("\x7b" ++ s ++ "\x7d") := by
    rw [utf8_append, utf8_append]
    intro hprefix
    have hhead := List.prefix_iff_eq_append.mp hprefix
    cases hhead
  subst hobject
  refine reads_of hone ?_ ?_ (Crypto.decrypt_plain _ hplain) hback
  · rw [utf8_append]
    exact stripCr_concat (by decide)
  · rw [String.append_assoc, show "\x7b" = String.singleton (Char.ofNat 123) by decide]
    exact isBlank_of_head (by decide) _

theorem encodeLine_reads {c : Codec} (hc : c.Lawful) {nonce : Option Nonce} {entry : WalEntry}
    {line : Bytes} (h : c.encodeLine nonce entry = .ok line) : c.Reads line entry := by
  unfold encodeLine Crypto.encrypt at h
  cases hjson : c.toVec entry with
  | error e => rw [hjson] at h; cases h
  | ok json =>
      have hback := hc.roundTrip entry json hjson
      rw [hjson] at h
      cases hkey : c.crypto.keyFromEnv with
      | error e => rw [hkey] at h; cases h
      | ok key =>
          rw [hkey] at h
          cases key with
          | none =>
              -- the line is the object itself
              cases h
              exact object_reads hc hjson
          | some key =>
              have hcrypto := hc.crypto key hkey
              cases nonce with
              | none => cases h
              | some nonce =>
                  cases hcipher : c.crypto.cipherEncrypt key nonce json with
                  | none => simp only [hcipher] at h; cases h
                  | some ciphertext =>
                      simp only [hcipher] at h
                      cases h
                      have hdecrypt := Crypto.decrypt_encrypted hkey hcrypto hcipher
                      obtain ⟨t, ht⟩ := hcrypto.text (nonce.bytes ++ ciphertext)
                      obtain ⟨hnl, hcr⟩ := hcrypto.oneLine (nonce.bytes ++ ciphertext)
                      rw [ht, ← utf8_append] at hdecrypt ⊢
                      rw [ht] at hnl hcr
                      refine reads_of ?_ (stripCr_of_notMem ?_) ?_ hdecrypt hback
                      · rw [utf8_append]
                        exact fun hmem => (List.mem_append.mp hmem).elim (by decide) hnl
                      · rw [utf8_append]
                        exact fun hmem => (List.mem_append.mp hmem).elim (by decide) hcr
                      · rw [show encPrefix = String.singleton 'D' ++ "AIKON-ENC1:" by decide,
                          String.append_assoc]
                        exact isBlank_of_head (by decide) _

/-! ## Lists of lines -/

theorem readLines_append (c : Codec) (l₁ l₂ : List Bytes) : ∀ lineNo,
    c.readLines lineNo (l₁ ++ l₂) = match c.readLines lineNo l₁ with
      | .error e => .error e
      | .ok es₁ =>
          match c.readLines (lineNo + l₁.length) l₂ with
          | .error e => .error e
          | .ok es₂ => .ok (es₁ ++ es₂) := by
  induction l₁ with
  | nil =>
      intro lineNo
      simp only [List.nil_append, readLines, List.length_nil, Nat.add_zero]
      cases c.readLines lineNo l₂ <;> rfl
  | cons line l₁ ih =>
      intro lineNo
      rw [List.cons_append, readLines, readLines, ih, List.length_cons]
      cases c.readLine lineNo line with
      | error e => rfl
      | ok entry =>
          simp only
          cases c.readLines (lineNo + 1) l₁ with
          | error e => rfl
          | ok es₁ =>
              simp only
              rw [Nat.add_comm l₁.length 1, ← Nat.add_assoc]
              cases c.readLines (lineNo + 1 + l₁.length) l₂ with
              | error e => rfl
              | ok es₂ => simp only [List.append_assoc]

/-- The lines are read without an error, and give these entries. -/
def ReadsTo (c : Codec) (lines : List Bytes) (entries : List WalEntry) : Prop :=
  ∀ lineNo, c.readLines lineNo lines = .ok entries

theorem ReadsTo.nil (c : Codec) : c.ReadsTo [] [] := fun _ => rfl

theorem ReadsTo.append {c : Codec} {l₁ l₂ : List Bytes} {es₁ es₂ : List WalEntry}
    (h₁ : c.ReadsTo l₁ es₁) (h₂ : c.ReadsTo l₂ es₂) : c.ReadsTo (l₁ ++ l₂) (es₁ ++ es₂) := by
  intro lineNo
  rw [readLines_append, h₁]
  simp only [h₂ (lineNo + l₁.length)]

theorem Reads.readsTo {c : Codec} {line : Bytes} {entry : WalEntry} (h : c.Reads line entry) :
    c.ReadsTo [line] [entry] := by
  intro lineNo
  rw [readLines, h.read]
  rfl

/-- A part of a line that `read_all` does not stop at: text that needs no decryption, or decrypts. -/
def Harmless (c : Codec) (part : Bytes) : Prop :=
  (fromUtf8 part).isSome ∧ ∃ data, c.crypto.decrypt part = .ok data

theorem Harmless.readsTo {c : Codec} {part : Bytes} (h : c.Harmless part) :
    ∃ entries, c.ReadsTo [part] entries := by
  obtain ⟨htext, data, hdata⟩ := h
  obtain ⟨text, htext⟩ := Option.isSome_iff_exists.mp htext
  by_cases hblank : isBlank text = true
  · refine ⟨[], fun lineNo => ?_⟩
    rw [readLines, readLine, htext]
    simp only [hblank]
    rfl
  · refine ⟨(c.fromSlice data).toList, fun lineNo => ?_⟩
    rw [readLines, readLine, htext]
    simp only [hblank, hdata]
    simp [readLines]

/-! ## Codecs that know some entries -/

/-- Without encryption, the entries of a list with their texts. -/
def plain (samples : List (WalEntry × String)) : Codec where
  toVec entry := (samples.find? fun p => p.1 = entry).elim (.error "unsupported entry")
    fun p => .ok (utf8 p.2)
  fromSlice json := (samples.find? fun p => utf8 p.2 = json).map Prod.fst
  crypto :=
    { keyFromEnv := .ok none
      cipherEncrypt := fun _ _ _ => none
      cipherDecrypt := fun _ _ _ => none
      base64Encode := fun bytes => bytes
      base64Decode := fun _ => none }

theorem plain_lawful {samples : List (WalEntry × String)}
    (h : ∀ p ∈ samples, (∃ s, p.2 = "\x7b" ++ s ++ "\x7d") ∧ newline ∉ utf8 p.2 ∧
      samples.find? (fun q => utf8 q.2 = utf8 p.2) = some p) : (plain samples).Lawful := by
  have hknown : ∀ entry json, (plain samples).toVec entry = .ok json →
      ∃ p ∈ samples, p.1 = entry ∧ json = utf8 p.2 := by
    intro entry json hjson
    simp only [plain] at hjson
    cases hfind : samples.find? fun p => p.1 = entry with
    | none => rw [hfind] at hjson; cases hjson
    | some p =>
        rw [hfind] at hjson
        cases hjson
        exact ⟨p, List.mem_of_find?_eq_some hfind, by simpa using List.find?_some hfind, rfl⟩
  refine ⟨fun entry json hjson => ?_, fun entry json hjson => ?_, fun entry json hjson => ?_,
    fun key hkey => by cases hkey⟩
  · obtain ⟨p, hp, -, rfl⟩ := hknown entry json hjson
    obtain ⟨⟨s, hs⟩, -, -⟩ := h p hp
    exact ⟨s, congrArg utf8 hs⟩
  · obtain ⟨p, hp, -, rfl⟩ := hknown entry json hjson
    exact (h p hp).2.1
  · obtain ⟨p, hp, rfl, rfl⟩ := hknown entry json hjson
    simp only [plain, (h p hp).2.2, Option.map_some]

end Codec

/-- The text of a DELETE entry at time zero, for a key without a character to escape. -/
def deleteText (key : String) : String :=
  "\x7b\"timestamp\":0,\"operation\":\x7b\"op\":\"DELETE\",\"key\":\"" ++ key ++ "\"\x7d\x7d"

/-- A codec for the deletions of `a` and `b`. -/
def Codec.deletions : Codec :=
  .plain [(⟨0, .delete "a"⟩, deleteText "a"), (⟨0, .delete "b"⟩, deleteText "b")]

theorem Codec.deletions_lawful : Codec.deletions.Lawful := by
  refine plain_lawful fun p hp => ?_
  rcases List.mem_pair.mp hp with rfl | rfl
  · exact ⟨⟨"\"timestamp\":0,\"operation\":\x7b\"op\":\"DELETE\",\"key\":\"a\"\x7d", by decide +kernel⟩,
      by decide +kernel, by decide +kernel⟩
  · exact ⟨⟨"\"timestamp\":0,\"operation\":\x7b\"op\":\"DELETE\",\"key\":\"b\"\x7d", by decide +kernel⟩,
      by decide +kernel, by decide +kernel⟩

end Daikon
