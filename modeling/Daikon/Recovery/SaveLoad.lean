/-
# Daikon.Recovery.SaveLoad -- a store that was saved, and the next start

`load_from_file` after a save that reported success gives the saved entries and counters, if every
value can be written and read back and the last flush lost nothing (`save_load_lossless_iff`); the
save does not look. A start whose load fails goes on with an empty store (`startStore_of_saved`).

The file is what `Daikon.Store.File` makes of it: a temporary file that is written through a buffer, a
rename, and a backup of the file that was there. serde_json is a parameter with what its documentation says
of it (`FileLib.Documented`): it can write every value but a number that is not finite, reads back what it
wrote up to a depth of 127, and refuses what lies deeper. That a float comes back to its last bit is a
feature of the package which the program does not ask for, so it is a hypothesis of its own (`ReadsFloats`),
used only where the store holds one.

The equivalence is per save, for every store, every disk and both saves. Its right side goes by the store
and by the disk: every value can be written and read back (`Savable`), and the last flush of the buffer lost
nothing. `infinity_not_loaded` is a save that answers success and a file that no start can load.
-/
import Daikon.Recovery.Restart
import Daikon.Store.File

namespace Daikon

variable {B : Type} {lib : FileLib B} {s : KvStore} {save : Save} {disk : Disk} {path : Path}
  {files files' : Files B}

/-- The load gives the entries and counters of a store, with its keys as the recency list. -/
def LoadsAs (lib : FileLib B) (path : Path) (files : Files B) (s : KvStore) : Prop :=
  ∃ loaded, KvStore.loadFromFile lib path files = .ok loaded ∧ loaded.store = s.store ∧
    loaded.stats = s.stats ∧ loaded.lruOrder.Perm loaded.store.keys

/-- The two ways a load ends after a save: the whole store, or an error. -/
theorem load_after_save (hlib : lib.Documented)
    (hfloats : s.Floatless lib.toSerializer ∨ lib.ReadsFloats)
    (hsave : save.run s lib disk path files = (.ok (), files')) :
    ((disk.flush = none ∧ s.Savable lib.toSerializer) ∧ KvStore.loadFromFile lib path files' = .ok
        { store := s.store, stats := s.stats, lruOrder := (lib.entries s.store).map Prod.fst }) ∨
      (¬ (disk.flush = none ∧ s.Savable lib.toSerializer) ∧
        ∃ e, KvStore.loadFromFile lib path files' = .error e) := by
  have hread := save_read hsave
  cases hflush : disk.flush with
  | none =>
    rw [Disk.landed_whole hflush] at hread
    rcases KvStore.loadFromFile_packed hlib hfloats hread with ⟨hsavable, hload⟩ | ⟨hsavable, hload⟩
    · exact .inl ⟨⟨rfl, hsavable⟩, hload⟩
    · exact .inr ⟨fun h => hsavable h.2, hload⟩
  | some n =>
    rw [Disk.landed_cut hflush] at hread
    exact .inr ⟨fun h => Option.some_ne_none n h.1, KvStore.loadFromFile_cut hlib hread⟩

/-- Saving and loading is lossless exactly when the flush that nobody looks at succeeds, every stored
float is finite and no stored JSON value is nested too deep to be read back. -/
theorem save_load_lossless_iff (hlib : lib.Documented)
    (hfloats : s.Floatless lib.toSerializer ∨ lib.ReadsFloats)
    (hsave : save.run s lib disk path files = (.ok (), files')) :
    LoadsAs lib path files' s ↔ disk.flush = none ∧ s.Savable lib.toSerializer := by
  rcases load_after_save hlib hfloats hsave with ⟨hgood, hload⟩ | ⟨hbad, e, hload⟩
  · exact iff_of_true ⟨_, hload, rfl, rfl, KvStore.entries_keys_perm hlib s.store⟩ hgood
  · refine iff_of_false ?_ hbad
    rintro ⟨loaded, hok, -⟩
    simp [hload] at hok

/-! ## Libraries over documents -/

/-- What a file holds, told by what made it. -/
inductive Contents where
  | document (doc : Json)
  | gzip (inner : Contents)
  | zstd (inner : Contents)
  | torn

/-- Libraries that keep the document itself; a `serde_json::Value` here is a text. -/
def FileLib.symbolic : FileLib Contents where
  entries m := m.toList
  jsonDoc j := .str j.text
  docJson
    | .str text => ⟨text⟩
    | _ => ⟨""⟩
  toWriterPretty := .document
  fromReader
    | .document doc => if doc.depth < 128 then .ok doc.written else .error "recursion limit exceeded"
    | _ => .error "EOF while parsing an object"
  gzEncode := .gzip
  gzDecode
    | .gzip inner => .ok inner
    | _ => .error "unexpected end of file"
  zstdEncode := .zstd
  zstdDecode
    | .zstd inner => .ok inner
    | _ => .error "incomplete frame"
  cut _ _ := .torn
  mismatch _ := "invalid type"
  debug text := "\"" ++ text ++ "\""

theorem FileLib.symbolic_documented : FileLib.symbolic.Documented where
  entries_perm _ := .refl _
  docJson_jsonDoc _ := rfl
  jsonDoc_written j := Json.written_str j.text
  gzDecode_gzEncode _ := rfl
  zstdDecode_zstdEncode _ := rfl
  fromReader_shallow _ h _ := if_pos h
  fromReader_deep _ h := ⟨_, if_neg (Nat.not_lt.2 h)⟩
  document_cut compression _ _ := by cases compression <;> exact ⟨_, rfl⟩

/-- The store of a text and a number, as the tests save it. -/
def twoKeys : KvStore := ((KvStore.new.set 0 "k1" (.str "v1")).2.set 0 "k2" (.int 123)).2

/-- The default data file. -/
def storeJson : Path := ⟨"", some "store.json"⟩

theorem save_load_lossless_iff_backup :
    LoadsAs .symbolic storeJson
      ((Save.withVersion 2).run twoKeys .symbolic {} storeJson fun _ _ => none).2 twoKeys :=
  have hsaved : ((Save.withVersion 2).run twoKeys .symbolic {} storeJson fun _ _ => none).1
      = .ok () := rfl
  (save_load_lossless_iff FileLib.symbolic_documented (.inl (by decide +kernel)) (Prod.ext hsaved rfl)).2
    ⟨rfl, by decide +kernel⟩

/-- `f64::INFINITY`. -/
def infinity : Float := Float.ofBits 0x7ff0000000000000

/-- One infinite float, stored and saved with success, and the file of the whole store is refused. -/
theorem infinity_not_loaded :
    let called := twoKeys.set 0 "f" (.float infinity)
    let saved := Save.toFile.run called.2 .symbolic {} storeJson fun _ _ => none
    called.1 = .ok () ∧ saved.1 = .ok () ∧ ¬ LoadsAs .symbolic storeJson saved.2 called.2 := by
  refine ⟨by decide +kernel, rfl, ?_⟩
  rintro ⟨loaded, hok, -⟩
  have hnone : (KvStore.loadFromFile .symbolic storeJson
      (Save.toFile.run (twoKeys.set 0 "f" (.float infinity)).2 .symbolic {} storeJson
        fun _ _ => none).2).toOption = none := by decide +kernel
  simp [hok, Except.toOption] at hnone

/-! ## The next start -/

/-- The store that `main` begins with: the loaded one, or a new one where there is no file or it
cannot be read. -/
def startStore (lib : FileLib B) (cfg : StoreConfig) (path : Path) (files : Files B) : KvStore :=
  match files.read path with
  | none => KvStore.new.setConfig cfg
  | some _ =>
      match KvStore.loadFromFile lib path files with
      | .ok loaded => loaded.setConfig cfg
      | .error _ => KvStore.new.setConfig cfg

/-- A saved store is what the next start begins with, or nothing of it is. -/
theorem startStore_of_saved (hlib : lib.Documented)
    (hfloats : s.Floatless lib.toSerializer ∨ lib.ReadsFloats) (cfg : StoreConfig)
    (hsave : save.run s lib disk path files = (.ok (), files')) :
    ((disk.flush = none ∧ s.Savable lib.toSerializer) ∧
        startStore lib cfg path files' = s.loaded cfg ((lib.entries s.store).map Prod.fst)) ∨
      (¬ (disk.flush = none ∧ s.Savable lib.toSerializer) ∧
        startStore lib cfg path files' = KvStore.withConfig cfg) := by
  have hread := save_read hsave
  rcases load_after_save hlib hfloats hsave with ⟨hgood, hload⟩ | ⟨hbad, e, hload⟩
  · refine .inl ⟨hgood, ?_⟩
    simp only [startStore, hread, hload]
    rfl
  · refine .inr ⟨hbad, ?_⟩
    simp only [startStore, hread, hload]
    rfl

end Daikon
