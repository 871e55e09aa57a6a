/-
# Daikon.Store.Limits -- the configured limits

`set` and what goes through it look at the key and at the value. The calls that create a list, a hash or
a sketch look at the key only, those that change a value in place look at nothing, and EXEC carries out
what it finds in its queue. No call looks at the number of keys. So the limits hold in every state of a
run whose calls keep to them (`limits_hold`), and a call on a single key that does not breaks them at
once (`limits_broken`).

What a call may do is said by the entry that it finds and its arguments, method by method (`Write.May`), in
terms of what the limits are about: a cell of a size, and a slot for a new key. A `set` is checked, so the
only thing asked of it is the slot; it may also make room for itself, by evicting another key. Whatever
creates a list, a hash or a sketch is asked for its size as well, and whatever makes a value grow in place
for the size that it comes to.

Of the two directions over runs the first is `limits_hold`. For the other one a call must do one thing
(`OnOneKey`): in the middle of an MSET or an EXEC the limits may be broken and kept again at the end.
-/
import Daikon.Lib.Run
import Daikon.Store.Budget
import Daikon.Store.Text
import Mathlib.Data.List.Perm.Subperm

namespace Daikon

open Lib.KeyedLog (run)
open Lib.Run (Always Guarded always_iff_guarded)

namespace KvStore

/-- Every key and value is within its limit, and so is the number of keys. -/
structure WithinLimits (s : KvStore) : Prop where
  entries : ∀ k entry, s.contents k = some entry → s.config.Valid k entry.value
  count : s.config.maxKeys = 0 ∨ s.store.size ≤ s.config.maxKeys

/-- One key more is within the limit. -/
def HasSlot (s : KvStore) : Prop := s.config.maxKeys = 0 ∨ s.store.size < s.config.maxKeys

instance (s : KvStore) : Decidable s.HasSlot := inferInstanceAs (Decidable (_ ∨ _))

/-! ## The number of keys -/

theorem contains_iff {s : KvStore} {key : String} : s.store.contains key = true ↔ s.contents key ≠ none := by
  rw [Std.ExtTreeMap.contains_eq_isSome_getElem?, Option.isSome_iff_ne_none]
  rfl

theorem store_eq_of_contents {s s' : KvStore} (h : s'.contents = s.contents) : s'.store = s.store :=
  Std.ExtTreeMap.ext_getElem? fun {k} => congrFun h k

theorem size_update_some {s s' : KvStore} {key : String} {entry : ValueWithTTL}
    (h : s'.contents = Function.update s.contents key (some entry)) :
    s'.store.size = if s.contents key = none then s.store.size + 1 else s.store.size := by
  have hstore : s'.store = s.store.insert key entry :=
    Std.ExtTreeMap.ext_getElem? fun {k} => (congrFun h k).trans (contents_insert s key entry k).symm
  rw [hstore, Std.ExtTreeMap.size_insert]
  by_cases hkey : s.contents key = none
  · rw [if_pos hkey, if_neg (fun hin => contains_iff.mp hin hkey)]
  · rw [if_neg hkey, if_pos (contains_iff.mpr hkey)]

theorem size_update_none {s s' : KvStore} {key : String}
    (h : s'.contents = Function.update s.contents key none) : s'.store.size ≤ s.store.size := by
  have hstore : s'.store = s.store.erase key :=
    Std.ExtTreeMap.ext_getElem? fun {k} => (congrFun h k).trans (contents_erase s key k).symm
  rw [hstore]
  exact Std.ExtTreeMap.size_erase_le

/-- What is taken out makes the store smaller. -/
theorem size_of_within {s s' : KvStore} (h : Within s'.contents s.contents) :
    s'.store.size ≤ s.store.size ∧ (s'.contents ≠ s.contents → s'.store.size < s.store.size) := by
  have hmem : ∀ {t : KvStore} {k : String}, k ∈ t.store.keys ↔ t.contents k ≠ none := fun {t k} => by
    rw [Std.ExtTreeMap.mem_keys, Std.ExtTreeMap.mem_iff_contains, contains_iff]
  have hsub : s'.store.keys ⊆ s.store.keys := by
    intro k hk
    rw [hmem] at hk ⊢
    rw [← (h k).resolve_right hk]
    exact hk
  have hsubperm := List.Nodup.subperm (Std.ExtTreeMap.nodup_keys (t := s'.store)) hsub
  have hle := hsubperm.length_le
  rw [Std.ExtTreeMap.length_keys, Std.ExtTreeMap.length_keys] at hle
  refine ⟨hle, fun hne => lt_of_le_of_ne hle fun heq => hne ?_⟩
  -- as many keys, so the same keys
  have hperm := hsubperm.perm_of_length_le (by
    rw [Std.ExtTreeMap.length_keys, Std.ExtTreeMap.length_keys, heq])
  funext k
  rcases h k with hk | hk
  · exact hk
  · by_contra hdiff
    have hin : k ∈ s'.store.keys := hperm.mem_iff.mpr (hmem.mpr fun hnone => hdiff (hk.trans hnone.symm))
    exact hmem.mp hin hk

/-! ## One cell -/

/-- What the operation makes of the entry is within the limits, and a new key has a slot. -/
def CellFits (s : KvStore) (cell : String × CellOp) : Prop :=
  ∀ entry, cell.2.onEntry (s.contents cell.1) = some entry →
    s.config.Valid cell.1 entry.value ∧ (s.contents cell.1 = none → s.HasSlot)

theorem update_limits_iff {s s' : KvStore} (h : s.WithinLimits) {key : String} {op : CellOp}
    (hcontents : s'.contents = Function.update s.contents key (op.onEntry (s.contents key)))
    (hcfg : s'.config = s.config) : s'.WithinLimits ↔ s.CellFits (key, op) := by
  have hself : s'.contents key = op.onEntry (s.contents key) := by rw [hcontents, Function.update_self]
  cases hnew : op.onEntry (s.contents key) with
  | none =>
      rw [hnew] at hcontents
      refine iff_of_true ⟨fun k entry hk => ?_, ?_⟩ fun entry hentry => ?_
      · rw [hcontents] at hk
        by_cases heq : k = key
        · rw [heq, Function.update_self] at hk
          cases hk
        · rw [Function.update_of_ne heq] at hk
          exact hcfg ▸ h.entries k entry hk
      · have := size_update_none hcontents
        have := h.count
        rw [hcfg]
        omega
      · rw [hnew] at hentry
        cases hentry
  | some new =>
      rw [hnew] at hcontents
      have hsize := size_update_some hcontents
      have hcount := h.count
      constructor
      · intro hafter entry hentry
        refine ⟨hcfg ▸ hafter.entries key entry (hself.trans hentry), fun hmissing => ?_⟩
        have := hafter.count
        rw [hcfg, hsize, if_pos hmissing] at this
        exact this.imp id (by omega)
      · intro hfits
        obtain ⟨hvalid, hslot⟩ := hfits new hnew
        refine ⟨fun k entry hk => ?_, ?_⟩
        · rw [hcontents] at hk
          by_cases heq : k = key
          · rw [heq, Function.update_self, Option.some.injEq] at hk
            rw [heq, ← hk, hcfg]
            exact hvalid
          · rw [Function.update_of_ne heq] at hk
            exact hcfg ▸ h.entries k entry hk
        · rw [hcfg, hsize]
          split
          · next hmissing => exact (hslot hmissing).imp id (by omega)
          · exact hcount

section

variable {s : KvStore} {key : String} (h : s.WithinLimits)

theorem values_eq_none_iff : s.values key = none ↔ s.contents key = none := Option.map_eq_none_iff

/-- A change in place asks for nothing but the size; a new value also wants a slot. -/
theorem cellFits_edit_iff (hvalid : s.config.ValidKey key) (f : Value → Value) (first : Value) :
    s.CellFits (key, .edit f (some first)) ↔ match s.values key with
      | some v => estimateValueSize (f v) ≤ s.config.maxValueSize
      | none => estimateValueSize first ≤ s.config.maxValueSize ∧ s.HasSlot := by
  unfold CellFits
  cases hkey : s.contents key with
  | none =>
      rw [values_eq_none_iff.mpr hkey]
      constructor
      · intro hfits
        exact ⟨(hfits _ rfl).1.2, (hfits _ rfl).2 rfl⟩
      · rintro ⟨hsize, hslot⟩ entry ⟨⟩
        exact ⟨⟨hvalid, hsize⟩, fun _ => hslot⟩
  | some old =>
      rw [show s.values key = some old.value by rw [values, hkey]; rfl]
      constructor
      · exact fun hfits => (hfits _ rfl).1.2
      · rintro hsize entry ⟨⟩
        exact ⟨⟨hvalid, hsize⟩, fun hmissing => by cases hmissing⟩

include h

theorem WithinLimits.value {v : Value} (hv : s.values key = some v) : s.config.Valid key v := by
  obtain ⟨entry, hentry, rfl⟩ := Option.map_eq_some_iff.mp hv
  exact h.entries key entry hentry

theorem cellFits_nop : s.CellFits (key, .nop) := by
  intro entry hentry
  have hold : s.contents key = some entry := by rwa [CellOp.onEntry_nop] at hentry
  exact ⟨h.entries key entry hold, fun hmissing => absurd (hmissing.symm.trans hold) (by simp)⟩

theorem cellFits_edit_none_iff (f : Value → Value) : s.CellFits (key, .edit f none) ↔
    ∀ v, s.values key = some v → estimateValueSize (f v) ≤ s.config.maxValueSize := by
  unfold CellFits
  cases hkey : s.contents key with
  | none =>
      have hnone := values_eq_none_iff.mpr hkey
      exact iff_of_true (fun _ hentry => by cases hentry) fun v hv => by rw [hnone] at hv; cases hv
  | some old =>
      have hold : s.values key = some old.value := by rw [values, hkey]; rfl
      rw [hold]
      constructor
      · rintro hfits v ⟨⟩
        exact (hfits _ rfl).1.2
      · rintro hsize entry ⟨⟩
        exact ⟨⟨(h.entries key old hkey).1, hsize _ rfl⟩, fun hmissing => by cases hmissing⟩

theorem cellFits_shrink {f : Value → Value} (hf : ∀ v, estimateValueSize (f v) ≤ estimateValueSize v) :
    s.CellFits (key, .edit f none) :=
  (cellFits_edit_none_iff h f).mpr fun v hv => (hf v).trans (h.value hv).2

theorem cellFits_retime (g : ValueWithTTL → Option Nat) : s.CellFits (key, .retime g) := by
  intro entry hentry
  cases hkey : s.contents key with
  | none => rw [hkey] at hentry; cases hentry
  | some old =>
      rw [hkey] at hentry
      cases hentry
      exact ⟨h.entries key old hkey, fun hmissing => by cases hmissing⟩

end

theorem cellFits_remove {s : KvStore} {key : String} : s.CellFits (key, .remove) :=
  fun _ hentry => by cases hentry

/-! ## What the calls put -/

/-- The bytes of a list of texts. -/
def textBytes (texts : List String) : Nat := (texts.map String.utf8ByteSize).sum

theorem textBytes_append (texts texts' : List String) :
    textBytes (texts ++ texts') = textBytes texts + textBytes texts' := by
  unfold textBytes
  rw [List.map_append, List.sum_append]

theorem textBytes_cons (text : String) (texts : List String) :
    textBytes (text :: texts) = text.utf8ByteSize + textBytes texts := rfl

theorem listSize_eq (list : List String) : estimateValueSize (.list list) = textBytes list + 24 := rfl

theorem textBytes_pushFront (values : List String) :
    ∀ list, textBytes (pushFront list values) = textBytes list + textBytes values := by
  unfold pushFront
  induction values with
  | nil => exact fun _ => rfl
  | cons v values ih =>
      intro list
      rw [List.foldl_cons, ih, textBytes_cons, textBytes_cons]
      omega

theorem textBytes_popFront (list : List String) :
    textBytes ((popFront list).elim list Prod.snd) ≤ textBytes list := by
  cases list with
  | nil => exact Nat.le_refl _
  | cons v rest =>
      show textBytes rest ≤ textBytes (v :: rest)
      rw [textBytes_cons]
      omega

theorem textBytes_popBack (list : List String) :
    textBytes ((popBack list).elim list Prod.snd) ≤ textBytes list := by
  rcases List.eq_nil_or_concat list with rfl | ⟨front, v, rfl⟩
  · exact Nat.le_refl _
  · rw [List.concat_eq_append, textBytes_append]
    simp [popBack]

theorem hashSize_erase (map : Fields) (field : String) :
    estimateValueSize (.hash (map.erase field)) ≤ estimateValueSize (.hash map) := by
  cases hfield : map[field]? with
  | none => rw [Lib.Lookup.erase_of_none map hfield]
  | some v =>
      have hperm := ((Lib.Weight.toList_perm map field hfield).map
        fun p => p.1.utf8ByteSize + p.2.utf8ByteSize).sum_nat
      simp only [List.map_cons, List.sum_cons] at hperm
      simp only [estimateValueSize]
      omega

theorem hashSize_removeFields (map : Fields) (fields : List String) :
    estimateValueSize (.hash (removeFields map fields).1) ≤ estimateValueSize (.hash map) := by
  unfold removeFields
  have hfold : ∀ (fields : List String) (acc : Fields × Nat),
      estimateValueSize (.hash (fields.foldl (fun acc f =>
        (acc.1.erase f, if acc.1.contains f then acc.2 + 1 else acc.2)) acc).1)
        ≤ estimateValueSize (.hash acc.1) := by
    intro fields
    induction fields with
    | nil => exact fun acc => Nat.le_refl _
    | cons f fields ih => exact fun acc => (ih _).trans (hashSize_erase acc.1 f)
  exact hfold fields (map, 0)

/-! ## Room for one call -/

/-- The value makes the eviction loop run. -/
def MakesRoom (s : KvStore) (value : Value) : Prop :=
  (0 < s.config.maxMemoryBytes ∧ s.config.lruEvictionEnabled = true) ∧
    s.config.maxMemoryBytes < s.stats.memoryBytes + estimateValueSize value

/-- A `set` that is accepted and carried out at once has a slot for a new key, or evicts another. -/
def MaySet (s : KvStore) (key : String) (value : Value) : Prop :=
  s.config.Valid key value → s.inTransaction = false → s.contents key = none →
    s.HasSlot ∨ s.MakesRoom value

/-- A value of this size may be created, if the key is missing. -/
def MayCreate (s : KvStore) (key : String) (size : Nat) : Prop :=
  s.contents key = none → size ≤ s.config.maxValueSize ∧ s.HasSlot

/-- The texts may be pushed. -/
def MayPush (s : KvStore) (key : String) (values : List String) : Prop :=
  s.config.ValidKey key → match s.values key with
    | some (.list list) => textBytes list + textBytes values + 24 ≤ s.config.maxValueSize
    | some _ => True
    | none => textBytes values + 24 ≤ s.config.maxValueSize ∧ s.HasSlot

/-- The hash may be changed so, or be created. -/
def MaySetFields (s : KvStore) (key : String) (f : Fields → Fields) (first : Fields) : Prop :=
  s.config.ValidKey key → match s.values key with
    | some (.hash map) => estimateValueSize (.hash (f map)) ≤ s.config.maxValueSize
    | some _ => True
    | none => estimateValueSize (.hash first) ≤ s.config.maxValueSize ∧ s.HasSlot

/-- The text may be appended. -/
def MayAppend (s : KvStore) (key value : String) : Prop :=
  match s.values key with
  | some (.str old) => old.utf8ByteSize + value.utf8ByteSize ≤ s.config.maxValueSize
  | some _ => True
  | none => s.MaySet key (.str value)

section

variable {s : KvStore} {key : String} (h : s.WithinLimits)

include h

/-- The calls that look at the key only do nothing where it is refused. -/
theorem cellFits_checked_iff {op : CellOp} {P : Prop}
    (hop : s.config.ValidKey key → (s.CellFits (key, op) ↔ P)) :
    s.CellFits (key, if s.config.ValidKey key then op else .nop) ↔ (s.config.ValidKey key → P) := by
  by_cases hvalid : s.config.ValidKey key
  · rw [if_pos hvalid, imp_iff_right hvalid]
    exact hop hvalid
  · rw [if_neg hvalid]
    exact iff_of_true (cellFits_nop h) fun hv => absurd hv hvalid

theorem pushList_fits_iff {push : List String → List String → List String}
    (hpush : ∀ list values, textBytes (push list values) = textBytes list + textBytes values)
    (values : List String) :
    s.CellFits (key, .pushList s.config push key values) ↔ s.MayPush key values := by
  refine cellFits_checked_iff h fun hvalid => ?_
  -- a new list has the bytes of the pushed texts
  have hempty : textBytes (push [] values) = textBytes values := by
    rw [hpush]
    exact Nat.zero_add _
  rw [cellFits_edit_iff hvalid, listSize_eq, hempty]
  cases hkey : s.values key with
  | none => rfl
  | some v =>
      cases v with
      | list list => simp only [listSize_eq, hpush]
      | _ => exact iff_of_true (h.value hkey).2 trivial

/-- The calls that change a hash or create one. -/
theorem changeHash_fits_iff (f : Fields → Fields) (first : Fields) :
    s.CellFits (key, if s.config.ValidKey key then
        .edit (fun | .hash map => .hash (f map) | v => v) (some (.hash first)) else .nop) ↔
      s.MaySetFields key f first := by
  refine cellFits_checked_iff h fun hvalid => ?_
  rw [cellFits_edit_iff hvalid]
  cases hkey : s.values key with
  | none => rfl
  | some v =>
      cases v with
      | hash map => rfl
      | _ => exact iff_of_true (h.value hkey).2 trivial

theorem setFields_fits_iff (fields : Fields) : s.CellFits (key, .setFields s.config key fields) ↔
    s.MaySetFields key (fun map => (insertFields map fields).1) fields :=
  changeHash_fits_iff h _ _

/-- A field with the sum of what it holds and the amount. -/
def addedField {N : Type} (parse : String → Option N) (zero : N) (add : N → N → N) (show_ : N → String)
    (field : String) (amount : N) (map : Fields) : Fields :=
  map.insert field (show_ (add ((map[field]?.map fun v => (parse v).getD zero).getD zero) amount))

theorem addField_fits_iff {N : Type} (parse : String → Option N) (zero : N) (add : N → N → N)
    (show_ : N → String) (field : String) (amount : N) :
    s.CellFits (key, .addField s.config parse zero add show_ key field amount) ↔
      s.MaySetFields key (addedField parse zero add show_ field amount)
        ((∅ : Fields).insert field (show_ amount)) :=
  changeHash_fits_iff h (addedField parse zero add show_ field amount) _

/-- What changes a number or takes something out of a list or a hash fits anyhow. -/
theorem addInt_fits (amount : Int64) : s.CellFits (key, .addInt amount) :=
  cellFits_shrink h fun v => by cases v <;> exact Nat.le_refl _

theorem popList_fits {pop : List String → Option (String × List String)}
    (hpop : ∀ list, textBytes ((pop list).elim list Prod.snd) ≤ textBytes list) :
    s.CellFits (key, .popList pop) :=
  cellFits_shrink h fun v => by
    cases v with
    | list list => exact Nat.add_le_add_right (hpop list) 24
    | _ => exact Nat.le_refl _

theorem deleteFields_fits (fields : List String) : s.CellFits (key, .deleteFields fields) :=
  cellFits_shrink h fun v => by
    cases v with
    | hash map => exact hashSize_removeFields map fields
    | _ => exact Nat.le_refl _

/-! ## Sketches -/

/-- PFADD changes the registers of a sketch and not their number. -/
theorem addValues_fits_iff (rt : Runtime) (values : List String) :
    s.CellFits (key, .addValues rt s.config key values) ↔ (s.config.ValidKey key → values ≠ [] →
      s.MayCreate key HyperLogLog.default.memoryBytes) := by
  refine cellFits_checked_iff h fun hvalid => ?_
  by_cases hnil : values = []
  · subst hnil
    exact iff_of_true (cellFits_nop h) fun hne => absurd rfl hne
  · rw [if_neg (by simpa using hnil), imp_iff_right hnil, cellFits_edit_iff hvalid]
    have hsize : estimateValueSize (.hyperLogLog (HyperLogLog.addAll rt.hashValue values .default))
        = HyperLogLog.default.memoryBytes := HyperLogLog.addAll_registers_length rt.hashValue values _
    cases hkey : s.values key with
    | none => exact hsize ▸ (imp_iff_right (values_eq_none_iff.mp hkey)).symm
    | some v =>
        refine iff_of_true ?_ fun hnone => absurd (values_eq_none_iff.mpr hnone) (by simp [hkey])
        have hold := (h.value hkey).2
        cases v with
        | hyperLogLog hll =>
            exact (HyperLogLog.addAll_registers_length rt.hashValue values hll).le.trans hold
        | _ => exact hold

theorem reserve_fits_iff (precision : Nat) : s.CellFits (key, if s.config.ValidKey key then
      .edit id (some (.hyperLogLog (HyperLogLog.new precision))) else .nop) ↔
    (s.config.ValidKey key → s.MayCreate key (HyperLogLog.new precision).memoryBytes) := by
  refine cellFits_checked_iff h fun hvalid => ?_
  rw [cellFits_edit_iff hvalid]
  cases hkey : s.values key with
  | none => exact (imp_iff_right (values_eq_none_iff.mp hkey)).symm
  | some v =>
      exact iff_of_true (h.value hkey).2 fun hnone =>
        absurd (values_eq_none_iff.mpr hnone) (by simp [hkey])

theorem merge_fits_iff (sources : List String) : s.CellFits (key, s.mergeCell key sources) ↔
    (s.config.ValidKey key → sources ≠ [] → ∀ merged, s.mergedSketch key sources = .ok merged →
      s.MayCreate key HyperLogLog.default.memoryBytes) := by
  unfold mergeCell MayCreate
  by_cases hcall : s.config.ValidKey key ∧ sources ≠ []
  · rw [if_pos hcall, imp_iff_right hcall.1, imp_iff_right hcall.2]
    cases hmerged : s.mergedSketch key sources with
    | error e => exact iff_of_true (cellFits_nop h) fun merged hm => by cases hm
    | ok merged =>
        have hlength := mergedSketch_registers_length hmerged
        have hsize : estimateValueSize (.hyperLogLog merged) = merged.registers.length := rfl
        cases hkey : s.contents key with
        | none =>
            rw [hkey] at hlength
            constructor
            · intro hfits _ _ _
              obtain ⟨hvalid, hslot⟩ := hfits _ rfl
              exact ⟨hlength.symm.le.trans hvalid.2, hslot hkey⟩
            · rintro hcreate entry ⟨⟩
              obtain ⟨hle, hslot⟩ := hcreate merged rfl rfl
              exact ⟨⟨hcall.1, hlength.le.trans hle⟩, fun _ => hslot⟩
        | some old =>
            rw [hkey] at hlength
            refine iff_of_true ?_ fun _ _ hnone => by cases hnone
            rintro entry ⟨⟩
            refine ⟨⟨hcall.1, ?_⟩, fun hnone => absurd (hnone.symm.trans hkey) (by simp)⟩
            rw [hsize, hlength]
            exact (h.entries key old hkey).2
  · rw [if_neg hcall]
    exact iff_of_true (cellFits_nop h) fun hv hs => absurd ⟨hv, hs⟩ hcall

/-! ## Strings -/

theorem appendStr_fits_iff (hpresent : s.contents key ≠ none) (value : String) :
    s.CellFits (key, .appendStr s.config s.inTransaction key value) ↔ s.MayAppend key value := by
  obtain ⟨entry, hentry⟩ := Option.ne_none_iff_exists'.mp hpresent
  have hvalue : s.values key = some entry.value := by rw [values, hentry]; rfl
  have hsame : ∀ f first, s.CellFits (key, .edit f first) ↔ s.CellFits (key, .edit f none) := by
    intro f first
    unfold CellFits
    rw [hentry]
    exact Iff.rfl
  unfold CellOp.appendStr MayAppend
  rw [hsame, cellFits_edit_none_iff h, hvalue]
  obtain ⟨v, expiresAt⟩ := entry
  cases v with
  | str old =>
      constructor
      · intro hsize
        exact String.utf8ByteSize_append.symm.le.trans (hsize _ rfl)
      · rintro hsize v ⟨⟩
        exact String.utf8ByteSize_append.le.trans hsize
  | _ => exact iff_of_true (fun v hv => by cases hv; exact (h.value hvalue).2) trivial

end

/-- Eviction keeps to the limits that are kept to but for one key too many. -/
theorem WithinLimits.of_within {s s' : KvStore} (hwithin : Within s'.contents s.contents)
    (hcfg : s'.config = s.config) (hentries : ∀ k entry, s.contents k = some entry →
      s.config.Valid k entry.value) (hcount : s.config.maxKeys = 0 ∨ s'.store.size ≤ s.config.maxKeys) :
    s'.WithinLimits := by
  refine ⟨fun k entry hk => ?_, hcfg ▸ hcount⟩
  rw [hcfg]
  refine hentries k entry ?_
  rw [← (hwithin k).resolve_right (by rw [hk]; simp)]
  exact hk

/-- The loop that runs behind a put of a new key evicts at least one. -/
theorem enforce_size_lt {s : KvStore} (hlisted : s.Listed) (now : Nat) {key : String}
    (hkey : s.contents key ≠ none) (hcap : 0 < s.config.maxMemoryBytes)
    (hover : s.config.maxMemoryBytes < s.stats.memoryBytes) :
    (s.enforceMemoryLimit now).store.size < s.store.size := by
  refine (size_of_within (enforceMemoryLimit_within s now)).2 ?_
  rw [enforceMemoryLimit_capped hcap]
  refine enforceLoop_evicts now s.lruOrder s hover key (hlisted key ?_) hkey
  rw [Std.ExtTreeMap.mem_iff_contains]
  exact contains_iff.mpr hkey

section

variable {s : KvStore} {key : String} {value : Value}

/-- A put of a new key that evicts something leaves no more keys than before. -/
theorem put_size (hlisted : s.Listed) (now : Nat) (expiresAt : Option Nat)
    (hvalid : s.config.Valid key value) (htx : s.transactionQueue = none)
    (hnew : s.contents key = none) :
    (s.MakesRoom value → (s.setWithExpiry now key value expiresAt).2.store.size ≤ s.store.size) ∧
      (¬ s.MakesRoom value →
        (s.setWithExpiry now key value expiresAt).2.store.size = s.store.size + 1) := by
  have hinsert := (insertEntry_moves s key value expiresAt).contents
  have hsize := size_update_some hinsert
  rw [if_pos hnew] at hsize
  rw [setWithExpiry_put hvalid htx]
  simp only [emitKeyspaceEvent_store]
  unfold MakesRoom
  constructor
  · rintro ⟨hcapped, hover⟩
    rw [if_pos hcapped]
    have hin : (s.insertEntry key ⟨value, expiresAt⟩ (estimateValueSize value)).contents key ≠ none := by
      rw [hinsert]
      show Function.update s.contents key (some ⟨value, expiresAt⟩) key ≠ none
      simp
    have hall : (s.insertEntry key ⟨value, expiresAt⟩ (estimateValueSize value)).Listed :=
      hlisted.of_put rfl rfl
    have hlt := enforce_size_lt hall now hin hcapped.1 hover
    omega
  · intro hstays
    split
    · next hcapped =>
        rw [enforceMemoryLimit_of_le (Nat.le_of_not_lt fun hover => hstays ⟨hcapped, hover⟩)]
        exact hsize
    · exact hsize

theorem setWithExpiry_limits_iff (h : s.WithinLimits) (hlisted : s.Listed) (now : Nat)
    (expiresAt : Option Nat) :
    (s.setWithExpiry now key value expiresAt).2.WithinLimits ↔ s.MaySet key value := by
  by_cases hput : s.config.Valid key value ∧ s.transactionQueue = none
  · obtain ⟨hvalid, htx⟩ := hput
    have hop : CellOp.assignIf s.config s.inTransaction key value expiresAt
        = .assign value expiresAt := if_pos ⟨hvalid, by simp [inTransaction, htx]⟩
    have hwithin := setWithExpiry_within s now key value expiresAt
    rw [hop] at hwithin
    have hinsert := (insertEntry_moves s key value expiresAt).contents
    rw [← hinsert] at hwithin
    -- the entries are within the limits anyhow
    have hentries : ∀ k entry, (s.insertEntry key ⟨value, expiresAt⟩ (estimateValueSize value)).contents k
        = some entry → s.config.Valid k entry.value := by
      intro k entry hk
      rw [hinsert] at hk
      change Function.update s.contents key (some ⟨value, expiresAt⟩) k = some entry at hk
      by_cases heq : k = key
      · rw [heq, Function.update_self, Option.some.injEq] at hk
        rw [heq, ← hk]
        exact hvalid
      · rw [Function.update_of_ne heq] at hk
        exact h.entries k entry hk
    have hcount : (s.setWithExpiry now key value expiresAt).2.WithinLimits ↔
        (s.config.maxKeys = 0 ∨ (s.setWithExpiry now key value expiresAt).2.store.size
          ≤ s.config.maxKeys) := by
      constructor
      · intro hafter
        exact setWithExpiry_config (s := s) ▸ hafter.count
      · exact fun hcount => WithinLimits.of_within hwithin setWithExpiry_config hentries hcount
    have hbefore := h.count
    rw [hcount]
    unfold MaySet HasSlot
    rw [imp_iff_right hvalid, imp_iff_right (by simp [inTransaction, htx])]
    by_cases hnew : s.contents key = none
    · rw [imp_iff_right hnew]
      obtain ⟨hevicts, hgrows⟩ := put_size hlisted now expiresAt hvalid htx hnew
      by_cases hroom : s.MakesRoom value
      · have := hevicts hroom
        exact iff_of_true (by omega) (.inr hroom)
      · rw [hgrows hroom]
        simp only [hroom, or_false]
        omega
    · have hsize := size_update_some hinsert
      rw [if_neg hnew] at hsize
      have hle := (size_of_within hwithin).1
      exact iff_of_true (by omega) fun hnone => absurd hnone hnew
  · -- refused or queued
    obtain ⟨queue, hqueue⟩ := setWithExpiry_unput now expiresAt hput
    rw [hqueue]
    refine iff_of_true ⟨h.entries, h.count⟩ fun hvalid htx => absurd ⟨hvalid, ?_⟩ hput
    simpa [inTransaction] using htx

theorem append_limits_iff (h : s.WithinLimits) (hlisted : s.Listed) (now : Nat) (value : String) :
    (s.append now key value).2.WithinLimits ↔ s.MayAppend key value := by
  cases hkey : s.store[key]? with
  | none =>
      have hmissing : s.contents key = none := hkey
      rw [append_absent s key now value hkey]
      unfold MayAppend
      rw [values_eq_none_iff.mpr hmissing]
      exact setWithExpiry_limits_iff h hlisted now none
  | some entry =>
      have hpresent : s.contents key ≠ none := by
        rw [show s.contents key = some entry from hkey]
        simp
      have hmoves := append_present s key now value hkey
      rw [update_limits_iff h hmoves.contents hmoves.config, appendStr_fits_iff h hpresent]

end

/-! ## The queue of a transaction -/

/-- The queued operation, which nothing has looked at, keeps to the limits. -/
def QueuedMay (s : KvStore) : TransactionOp → Prop
  | .set key value _ => s.config.Valid key value ∧ (s.contents key = none → s.HasSlot)
  | .delete _ => True
  | .incr key | .decr key | .incrBy key _ =>
      s.contents key = none → s.config.ValidKey key ∧ 8 ≤ s.config.maxValueSize ∧ s.HasSlot
  | .append key value => match s.values key with
      | some (.str old) => old.utf8ByteSize + value.utf8ByteSize ≤ s.config.maxValueSize
      | some _ => True
      | none => s.config.Valid key (.str value) ∧ s.HasSlot

theorem addCell_fits_iff {s : KvStore} (h : s.WithinLimits) {key : String} (amount : Int64) :
    s.CellFits (key, TransactionOp.addCell amount) ↔
      (s.contents key = none → s.config.ValidKey key ∧ 8 ≤ s.config.maxValueSize ∧ s.HasSlot) := by
  unfold CellFits
  cases hkey : s.contents key with
  | none =>
      constructor
      · intro hfits _
        obtain ⟨hvalid, hslot⟩ := hfits _ rfl
        exact ⟨hvalid.1, hvalid.2, hslot rfl⟩
      · rintro hmay entry ⟨⟩
        obtain ⟨hvalid, hsize, hslot⟩ := hmay rfl
        exact ⟨⟨hvalid, hsize⟩, fun _ => hslot⟩
  | some old =>
      refine iff_of_true ?_ fun hnone => by cases hnone
      rintro entry ⟨⟩
      have hold := h.entries key old hkey
      obtain ⟨value, expiresAt⟩ := old
      refine ⟨⟨hold.1, ?_⟩, fun hnone => by cases hnone⟩
      cases value <;> exact hold.2

theorem queued_fits_iff {s : KvStore} (h : s.WithinLimits) (op : TransactionOp) :
    s.CellFits op.cell ↔ s.QueuedMay op := by
  cases op with
  | set key value expiresAt =>
      constructor
      · exact fun hfits => hfits _ rfl
      · rintro hmay entry ⟨⟩
        exact hmay
  | delete key => exact iff_of_true cellFits_remove trivial
  | incr key => exact addCell_fits_iff h 1
  | decr key => exact addCell_fits_iff h (-1)
  | incrBy key amount => exact addCell_fits_iff h amount
  | append key value =>
      show s.CellFits (key, (TransactionOp.append key value).cell.2) ↔ (match s.values key with
        | some (.str old) => old.utf8ByteSize + value.utf8ByteSize ≤ s.config.maxValueSize
        | some _ => True
        | none => s.config.Valid key (.str value) ∧ s.HasSlot)
      cases hkey : s.contents key with
      | none =>
          rw [values_eq_none_iff.mpr hkey]
          unfold CellFits
          rw [hkey]
          constructor
          · intro hfits
            obtain ⟨hvalid, hslot⟩ := hfits _ rfl
            exact ⟨hvalid, hslot rfl⟩
          · rintro ⟨hvalid, hslot⟩ entry ⟨⟩
            exact ⟨hvalid, fun _ => hslot⟩
      | some old =>
          have hvalue : s.values key = some old.value := by rw [values, hkey]; rfl
          have happend := appendStr_fits_iff h (by rw [hkey]; simp) value
          -- on a stored key the queued APPEND does what the call does
          have hsame : s.CellFits (key, (TransactionOp.append key value).cell.2) ↔
              s.CellFits (key, .appendStr s.config s.inTransaction key value) := by
            unfold CellFits
            rw [hkey]
            exact Iff.rfl
          rw [hsame, happend, MayAppend, hvalue]
          cases old.value <;> exact Iff.rfl

theorem execOps_limits (ops : List TransactionOp) : ∀ {s : KvStore}, s.WithinLimits →
    Guarded (fun s op => (s.execOp op).2) QueuedMay s ops → (execOps s ops).2.WithinLimits := by
  induction ops with
  | nil => exact fun h _ => h
  | cons op ops ih =>
      intro s h hguard
      refine ih ?_ hguard.2
      exact (update_limits_iff h (execOp_contents s op) (execOp_frame s op).config).mpr
        ((queued_fits_iff h op).mpr hguard.1)

end KvStore

/-! ## Every call, and every run -/

/-- The pairs of an `mset` keep to the limits, each at its turn. -/
def KvStore.MsetMay (now : Nat) : List (String × String) → KvStore → Prop
  | [], _ => True
  | (key, value) :: pairs, s => s.config.Valid key (.str value) →
      s.MaySet key (.str value) ∧ MsetMay now pairs (s.set now key (.str value)).2

/-- The call keeps to the limits. -/
def Write.May (rt : Runtime) (now : Nat) (s : KvStore) : Write → Prop
  | set key value | setWithTtl key value _ | getset key value => s.MaySet key value
  | append key value => s.MayAppend key value
  | mset pairs => s.MsetMay now pairs
  | lpush key values | rpush key values => s.MayPush key values
  | hset key fields => s.MaySetFields key (fun map => (KvStore.insertFields map fields).1) fields
  | hincrby key field amount =>
      s.MaySetFields key (KvStore.addedField parseI64 0 (· + ·) toString field amount)
        ((∅ : Fields).insert field (toString amount))
  | hincrbyfloat key field amount =>
      s.MaySetFields key (KvStore.addedField rt.f64Parse 0.0 (· + ·) rt.f64ToString field amount)
        ((∅ : Fields).insert field (rt.f64ToString amount))
  | pfadd key values => s.config.ValidKey key → values ≠ [] →
      s.MayCreate key HyperLogLog.default.memoryBytes
  | pfmerge destination sources => s.config.ValidKey destination → sources ≠ [] →
      ∀ merged, s.mergedSketch destination sources = .ok merged →
        s.MayCreate destination HyperLogLog.default.memoryBytes
  | delete _ | incr _ | decr _ | incrby _ _ | expire _ _ | persist _ | lpop _ | rpop _ | hdel _ _ => True

namespace KvStore

/-- What the call makes of the entries is within the limits, as far as the state before it shows. -/
def KeepsLimits (rt : Runtime) (s : KvStore) (c : Nat × Method) : Prop :=
  match c.2 with
  | .write w => w.May rt c.1 s
  | .pfreserve key precision => s.config.ValidKey key →
      s.MayCreate key (HyperLogLog.new precision).memoryBytes
  | .exec => ∀ queue, s.transactionQueue = some queue →
      Guarded (fun s op => (s.execOp op).2) QueuedMay { s with transactionQueue := none } queue
  | _ => True

/-- The call leaves the limits as they are. -/
def FixesLimits (s : KvStore) (c : Nat × Method) : Prop :=
  match c.2 with
  | .setConfig config => config.maxKeySize = s.config.maxKeySize ∧
      config.maxValueSize = s.config.maxValueSize ∧ config.maxKeys = s.config.maxKeys
  | _ => True

theorem mset_limits (now : Nat) (pairs : List (String × String)) : ∀ {s : KvStore}, s.WithinLimits →
    s.Listed → MsetMay now pairs s → (s.mset now pairs).2.WithinLimits := by
  induction pairs with
  | nil => exact fun h _ _ => h
  | cons pair pairs ih =>
      intro s h hlisted hmay
      obtain ⟨key, value⟩ := pair
      rw [mset_cons_snd]
      -- the first pair that is refused ends the call
      split
      · next hvalid =>
          obtain ⟨hfirst, hrest⟩ := hmay hvalid
          exact ih ((setWithExpiry_limits_iff h hlisted now none).mpr hfirst)
            (setWithExpiry_listed hlisted now key _ none) hrest
      · exact h

theorem Moves.limits_iff {s s' : KvStore} {key : String} {op : CellOp} (hmoves : Moves s s' [(key, op)])
    (h : s.WithinLimits) : s'.WithinLimits ↔ s.CellFits (key, op) :=
  update_limits_iff h hmoves.contents hmoves.config

theorem Moves.limits_true {s s' : KvStore} {key : String} {op : CellOp} (hmoves : Moves s s' [(key, op)])
    (h : s.WithinLimits) (hfits : s.CellFits (key, op)) : s'.WithinLimits ↔ True :=
  iff_of_true ((hmoves.limits_iff h).mpr hfits) trivial

/-- A write on one key keeps to the limits if and only if it is allowed to do what it does. -/
theorem write_limits_iff (rt : Runtime) {s : KvStore} (h : s.WithinLimits) (hlisted : s.Listed)
    (now : Nat) {w : Write} (hw : ∀ pairs, w ≠ .mset pairs) :
    (s.write rt now w).2.WithinLimits ↔ w.May rt now s := by
  cases w with
  | set key value => exact setWithExpiry_limits_iff h hlisted now none
  | setWithTtl key value ttl => exact setWithExpiry_limits_iff h hlisted now _
  | getset key value =>
      rw [show (s.write rt now (.getset key value)).2 = _ from getset_snd s key now value]
      exact setWithExpiry_limits_iff h hlisted now none
  | append key value => exact append_limits_iff h hlisted now value
  | mset pairs => exact absurd rfl (hw pairs)
  | delete key =>
      refine (delete_moves s key now).limits_true h ?_
      split
      · exact cellFits_nop h
      · exact cellFits_remove
  | incr key => exact (addToInt_moves s key 1).limits_true h (addInt_fits h 1)
  | decr key => exact (addToInt_moves s key (-1)).limits_true h (addInt_fits h (-1))
  | incrby key amount => exact (addToInt_moves s key amount).limits_true h (addInt_fits h amount)
  | expire key ttl => exact (expire_moves s key now ttl).limits_true h (cellFits_retime h _)
  | persist key => exact (persist_moves s key now).limits_true h (cellFits_retime h _)
  | pfadd key values =>
      exact ((pfadd_moves rt s key values).limits_iff h).trans (addValues_fits_iff h rt values)
  | pfmerge destination sources =>
      have hcfg : (s.pfmerge destination sources).2.config = s.config := (pfmerge_puts s _ _).frame.1
      exact (update_limits_iff h (pfmerge_mergeCell s destination sources) hcfg).trans
        (merge_fits_iff h sources)
  | lpush key values =>
      exact ((pushWith_moves s key pushFront values).limits_iff h).trans
        (pushList_fits_iff h (fun list values => textBytes_pushFront values list) values)
  | rpush key values =>
      exact ((pushWith_moves s key (· ++ ·) values).limits_iff h).trans
        (pushList_fits_iff h textBytes_append values)
  | lpop key => exact (popWith_moves s key popFront).limits_true h (popList_fits h textBytes_popFront)
  | rpop key => exact (popWith_moves s key popBack).limits_true h (popList_fits h textBytes_popBack)
  | hset key fields => exact ((hset_moves s key fields).limits_iff h).trans (setFields_fits_iff h fields)
  | hdel key fields => exact (hdel_moves s key fields).limits_true h (deleteFields_fits h fields)
  | hincrby key field amount =>
      exact ((addToField_moves s key parseI64 0 (· + ·) toString field amount).limits_iff h).trans
        (addField_fits_iff h parseI64 0 (· + ·) toString field amount)
  | hincrbyfloat key field amount =>
      exact ((addToField_moves s key rt.f64Parse 0.0 (· + ·) rt.f64ToString field amount).limits_iff h).trans
        (addField_fits_iff h rt.f64Parse 0.0 (· + ·) rt.f64ToString field amount)

/-- The same entries under the same three limits. -/
theorem WithinLimits.of_same {s s' : KvStore} (h : s.WithinLimits) (hcontents : s'.contents = s.contents)
    (hkey : s'.config.maxKeySize = s.config.maxKeySize)
    (hvalue : s'.config.maxValueSize = s.config.maxValueSize)
    (hkeys : s'.config.maxKeys = s.config.maxKeys) : s'.WithinLimits := by
  refine ⟨fun k entry hk => ?_, ?_⟩
  · obtain ⟨⟨hne, hsize⟩, hbytes⟩ := h.entries k entry (by rw [← hcontents, hk])
    exact ⟨⟨hne, by rw [hkey]; exact hsize⟩, by rw [hvalue]; exact hbytes⟩
  · rw [hkeys, store_eq_of_contents hcontents]
    exact h.count

/-- The call does not carry out a list of operations: every method but `mset` and `exec`. -/
def OnOneKey (c : Nat × Method) : Prop :=
  match c.2 with
  | .write (.mset _) | .exec => False
  | _ => True

/-- The step lemma, where one call does one thing. -/
theorem call_limits_iff (rt : Runtime) {s : KvStore} (h : s.WithinLimits) (hlisted : s.Listed)
    (c : Nat × Method) (hfixed : s.FixesLimits c) (hone : OnOneKey c) :
    (s.call rt c).WithinLimits ↔ s.KeepsLimits rt c := by
  obtain ⟨now, m⟩ := c
  have hqueue : ∀ m : Method, m.Queues → ((s.call rt (now, m)).WithinLimits ↔ True) := by
    intro m hm
    obtain ⟨queue, hcall⟩ := call_queues rt s now hm
    rw [hcall]
    exact iff_of_true (h.of_same rfl rfl rfl rfl) trivial
  cases m with
  | write w =>
      refine write_limits_iff rt h hlisted now ?_
      rintro pairs rfl
      exact hone
  | pfreserve key precision =>
      exact ((pfreserve_moves s key precision).limits_iff h).trans (reserve_fits_iff h precision)
  | exec => exact hone.elim
  | cleanupExpired =>
      have hwithin : Within (s.cleanupExpired now).2.contents s.contents := fun k => by
        rw [cleanupExpired_contents]
        by_cases hdue : k ∈ s.dueKeys now
        · exact .inr (if_pos hdue)
        · exact .inl (if_neg hdue)
      have hle := (size_of_within hwithin).1
      exact iff_of_true (WithinLimits.of_within hwithin (cleanupExpired_config s now) h.entries
        (h.count.imp id hle.trans)) trivial
  | setConfig config =>
      obtain ⟨hkey, hvalue, hkeys⟩ := hfixed
      exact iff_of_true (h.of_same rfl hkey hvalue hkeys) trivial
  | multi | discard | queueOperation op => exact hqueue _ trivial
  | drainKeyspaceEvents | resetStats | setKeyspaceNotificationsEnabled enabled =>
      exact iff_of_true (h.of_same rfl rfl rfl rfl) trivial

theorem exec_limits {s : KvStore} (h : s.WithinLimits)
    (hqueue : ∀ queue, s.transactionQueue = some queue →
      Guarded (fun s op => (s.execOp op).2) QueuedMay { s with transactionQueue := none } queue) :
    s.exec.2.WithinLimits := by
  unfold exec
  split
  · exact h
  · next queue htx => exact execOps_limits queue (h.of_same rfl rfl rfl rfl) (hqueue queue htx)

/-- The step lemma: a call that keeps to the limits leaves all within them. -/
theorem call_limits (rt : Runtime) {s : KvStore} (h : s.WithinLimits) (hlisted : s.Listed)
    (c : Nat × Method) (hfixed : s.FixesLimits c) (hkeeps : s.KeepsLimits rt c) :
    (s.call rt c).WithinLimits := by
  by_cases hone : OnOneKey c
  · exact (call_limits_iff rt h hlisted c hfixed hone).mpr hkeeps
  · -- what is left carries out a list
    obtain ⟨now, m⟩ := c
    cases m with
    | exec => exact exec_limits h hkeeps
    | write w =>
        cases w with
        | mset pairs => exact mset_limits now pairs h hlisted hkeeps
        | _ => exact absurd trivial hone
    | _ => exact absurd trivial hone

theorem withConfig_withinLimits (config : StoreConfig) : (withConfig config).WithinLimits := by
  refine ⟨fun k entry hk => ?_, .inr ?_⟩
  · rw [show (withConfig config).contents k = none by simp [contents, withConfig]] at hk
    cases hk
  · show (∅ : Entries).size ≤ config.maxKeys
    rw [Std.ExtTreeMap.size_empty]
    exact Nat.zero_le _

/-- In every run of a store from empty under fixed limits whose calls keep to them, every key and value
and the number of keys are within the limits in every state. -/
theorem limits_hold (rt : Runtime) (config : StoreConfig) (cs : List (Nat × Method))
    (hfixed : Guarded (call rt) FixesLimits (withConfig config) cs)
    (hkeeps : Guarded (call rt) (KeepsLimits rt) (withConfig config) cs) :
    Always (call rt) WithinLimits (withConfig config) cs := by
  have hrun : Always (call rt) (fun s => s.Listed ∧ s.WithinLimits) (withConfig config) cs := by
    refine (hfixed.and hkeeps).always ?_ ⟨withConfig_listed config, withConfig_withinLimits config⟩
    rintro s c ⟨hlisted, h⟩ ⟨hfix, hkeep⟩
    exact ⟨call_listed rt c hlisted, call_limits rt h hlisted c hfix hkeep⟩
  exact hrun.mono fun s h => h.2

/-- A field is set in a hash, and a text grows in place. -/
theorem limits_hold_growing : Always (call .strings) WithinLimits (withConfig { maxKeys := 2 })
    [(0, .write (.hset "h" ((∅ : Fields).insert "f" "v"))), (0, .write (.append "k" "aa")),
      (0, .write (.append "k" "aa"))] := by
  refine limits_hold .strings _ _ ⟨trivial, trivial, trivial, trivial⟩ ⟨?_, ?_, ?_, trivial⟩
  · exact fun _ => ⟨by decide +kernel, by decide +kernel⟩
  · exact fun _ _ _ => .inl (by decide +kernel)
  · exact Nat.le_of_ble_eq_true (by decide +kernel)

/-- A second key is set where one is allowed. -/
theorem second_key_set :
    Guarded (call .strings) FixesLimits (withConfig { maxKeys := 1 })
      [(0, .write (.set "a" (.str "x"))), (0, .write (.set "b" (.str "y")))] ∧
    ¬ Always (call .strings) WithinLimits (withConfig { maxKeys := 1 })
      [(0, .write (.set "a" (.str "x"))), (0, .write (.set "b" (.str "y")))] := by
  refine ⟨⟨trivial, trivial, trivial⟩, fun h => ?_⟩
  have hcount := h.last.count
  revert hcount
  decide +kernel

/-- A run whose calls do one thing each is within the limits throughout exactly if its calls keep to them:
the first that does not breaks them. -/
theorem limits_broken (rt : Runtime) (config : StoreConfig) (cs : List (Nat × Method))
    (hfixed : Guarded (call rt) FixesLimits (withConfig config) cs) (hone : ∀ c ∈ cs, OnOneKey c) :
    Always (call rt) WithinLimits (withConfig config) cs ↔
      Guarded (call rt) (KeepsLimits rt) (withConfig config) cs := by
  have hstep : ∀ (s : KvStore) (c : Nat × Method), s.Listed ∧ s.WithinLimits →
      s.FixesLimits c ∧ OnOneKey c → s.KeepsLimits rt c →
        (s.call rt c).Listed ∧ (s.call rt c).WithinLimits := by
    rintro s c ⟨hlisted, h⟩ ⟨hfix, -⟩ hkeep
    exact ⟨call_listed rt c hlisted, call_limits rt h hlisted c hfix hkeep⟩
  refine always_iff_guarded hstep (fun s h => h.2) ?_
    ⟨withConfig_listed config, withConfig_withinLimits config⟩ (hfixed.and_forall hone)
  rintro s c ⟨hlisted, h⟩ ⟨hfix, hkey⟩ hbreaks hafter
  exact hbreaks ((call_limits_iff rt h hlisted c hfix hkey).mp hafter)

end KvStore

end Daikon
