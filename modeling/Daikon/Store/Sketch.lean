/-
# Daikon.Store.Sketch -- the HyperLogLog calls

Adding to a sketch and merging into one keep its number of registers, which is its accounted size. So
PFADD is one cell operation at its key (`pfadd_moves`), and PFMERGE puts a sketch of the size of the one
it replaces, or of a new one (`pfmerge_cases`).

The values are added one by one to a sketch in memory, and the result is stored once, so a PFADD that fails
half way does not exist. The merge is different from every other call in that it reads several keys; it has
a cell only relative to the sketch that it makes (`mergeCell`), and no results about logs need one, as no
log entry makes a merge.
-/
import Daikon.Store.Refine

namespace Daikon

namespace HyperLogLog

@[simp] theorem add_registers_length (hashValue : String → UInt64) (hll : HyperLogLog)
    (value : String) : (hll.add hashValue value).1.registers.length = hll.registers.length := by
  unfold add
  simp only
  split
  · split
    · exact List.length_set
    · rfl
  · rfl

/-- The loop of PFADD. -/
def addAll (hashValue : String → UInt64) (values : List String) (hll : HyperLogLog) : HyperLogLog :=
  values.foldl (fun hll v => (hll.add hashValue v).1) hll

@[simp] theorem addAll_registers_length (hashValue : String → UInt64) (values : List String) :
    ∀ hll : HyperLogLog, (addAll hashValue values hll).registers.length = hll.registers.length := by
  induction values with
  | nil => intro hll; rfl
  | cons value values ih =>
      intro hll
      exact (ih _).trans (add_registers_length hashValue hll value)

theorem merge_registers_length {self other merged : HyperLogLog} (h : self.merge other = .ok merged) :
    merged.registers.length = self.registers.length := by
  unfold merge at h
  split at h
  · cases h
  · cases h
    simp only [List.length_append, List.length_zipWith, List.length_drop]
    omega

end HyperLogLog

/-- What PFADD does at its key. -/
def CellOp.addValues (rt : Runtime) (cfg : StoreConfig) (key : String) (values : List String) : CellOp :=
  if cfg.ValidKey key then
    if values.isEmpty then nop
    else
      edit (fun | .hyperLogLog hll => .hyperLogLog (HyperLogLog.addAll rt.hashValue values hll) | v => v)
        (some (.hyperLogLog (HyperLogLog.addAll rt.hashValue values .default)))
  else nop

namespace KvStore

theorem contains_eq (s : KvStore) (key : String) :
    s.store.contains key = (s.contents key).isSome := Std.ExtTreeMap.contains_eq_isSome_getElem?

theorem pfadd_moves (rt : Runtime) (s : KvStore) (key : String) (values : List String) :
    Moves s (s.pfadd rt key values).2 [(key, .addValues rt s.config key values)] := by
  unfold pfadd CellOp.addValues
  refine Moves.validated s key ?_
  by_cases hempty : values.isEmpty = true
  · rw [if_pos hempty, if_pos hempty]
    exact Moves.nop s key
  · rw [if_neg hempty, if_neg hempty]
    cases hkey : s.store[key]? with
    | none =>
        -- the size that is counted is that of an empty sketch
        have hsize : estimateValueSize (.hyperLogLog HyperLogLog.default)
            = estimateValueSize (.hyperLogLog (HyperLogLog.addAll rt.hashValue values .default)) :=
          (HyperLogLog.addAll_registers_length rt.hashValue values .default).symm
        simp only [hsize]
        exact Moves.insert hkey
    | some entry =>
        obtain ⟨value, expiresAt⟩ := entry
        cases value with
        | hyperLogLog hll => exact Moves.rewrite hkey rfl
        | _ => exact Moves.refused hkey rfl

/-- The sketch that PFMERGE makes of the destination and the sources. -/
def mergedSketch (s : KvStore) (destination : String) (sources : List String) :
    Except KvStoreError HyperLogLog :=
  (match s.store[destination]? with
    | some ⟨.hyperLogLog hll, _⟩ => .ok hll
    | some entry => .error (.typeMismatch destination "HyperLogLog" entry.value.typeName)
    | none => .ok HyperLogLog.default : Except KvStoreError HyperLogLog).bind
      (mergeSources s destination sources)

theorem mergeSources_registers_length (s : KvStore) (destination : String) (sources : List String) :
    ∀ {start merged : HyperLogLog}, mergeSources s destination sources start = .ok merged →
      merged.registers.length = start.registers.length := by
  induction sources with
  | nil => intro start merged h; cases h; rfl
  | cons source sources ih =>
      intro start merged h
      unfold mergeSources at h
      split at h
      · exact ih h
      · split at h
        · exact ih h
        · split at h
          · cases h
          · next next hnext =>
              exact (ih h).trans (HyperLogLog.merge_registers_length hnext)
        · cases h

/-- The merged sketch has as many registers as the one it replaces, or as a new one. -/
theorem mergedSketch_registers_length {s : KvStore} {destination : String} {sources : List String}
    {merged : HyperLogLog} (h : s.mergedSketch destination sources = .ok merged) :
    merged.registers.length = match s.contents destination with
      | some entry => estimateValueSize entry.value
      | none => HyperLogLog.default.registers.length := by
  unfold mergedSketch at h
  unfold contents
  split at h
  · next hll expiresAt hkey =>
      rw [hkey]
      exact mergeSources_registers_length s destination sources h
  · cases h
  · next hkey =>
      rw [hkey]
      exact mergeSources_registers_length s destination sources h

/-- A valid PFMERGE of some sources depends on the merged sketch alone. -/
theorem pfmerge_eq {s : KvStore} {destination : String} {sources : List String}
    (hvalid : s.config.ValidKey destination) (hsources : sources ≠ []) :
    s.pfmerge destination sources = match s.mergedSketch destination sources with
      | .error e => (.error e, s)
      | .ok merged => (.ok merged.count,
          if s.store.contains destination then s.rewriteEntry destination ⟨.hyperLogLog merged, none⟩
          else s.insertEntry destination ⟨.hyperLogLog merged, none⟩
            (estimateValueSize (.hyperLogLog merged))) := by
  have hmerge : s.pfmerge destination sources
      = match s.mergedSketch destination sources with
        | .error e => (.error e, s)
        | .ok merged =>
            if s.store.contains destination then
              (.ok merged.count, s.rewriteEntry destination ⟨.hyperLogLog merged, none⟩)
            else (.ok merged.count, s.insertEntry destination ⟨.hyperLogLog merged, none⟩
              (estimateValueSize (.hyperLogLog merged))) := by
    unfold pfmerge
    rw [validateKey_eq s destination hvalid]
    simp only
    rw [if_neg (by simpa using hsources)]
    rfl
  rw [hmerge]
  cases s.mergedSketch destination sources with
  | error e => rfl
  | ok merged =>
      simp only
      split <;> rfl

/-- PFMERGE is refused and changes nothing, or it puts the merged sketch, without an expiry: in place
of what was there, or as a new key whose size is counted. -/
theorem pfmerge_cases (s : KvStore) (destination : String) (sources : List String) :
    (∃ e, s.pfmerge destination sources = (.error e, s)) ∨
      ∃ merged, s.config.ValidKey destination ∧ sources ≠ [] ∧
        s.mergedSketch destination sources = .ok merged ∧
        s.pfmerge destination sources = (.ok merged.count,
          if s.store.contains destination then s.rewriteEntry destination ⟨.hyperLogLog merged, none⟩
          else s.insertEntry destination ⟨.hyperLogLog merged, none⟩
            (estimateValueSize (.hyperLogLog merged))) := by
  by_cases hvalid : s.config.ValidKey destination
  · by_cases hsources : sources = []
    · refine .inl ⟨.invalidValue "PFMERGE requires at least one source key", ?_⟩
      unfold pfmerge
      rw [validateKey_eq s destination hvalid, hsources]
      rfl
    · rw [pfmerge_eq hvalid hsources]
      cases hmerged : s.mergedSketch destination sources with
      | error e => exact .inl ⟨e, rfl⟩
      | ok merged => exact .inr ⟨merged, hvalid, hsources, rfl, rfl⟩
  · obtain ⟨e, he⟩ := validateKey_refused s destination hvalid
    refine .inl ⟨e, ?_⟩
    unfold pfmerge
    rw [he]

/-- What PFMERGE leaves at its key is the merged sketch, where there is one. -/
theorem pfmerge_contents {s : KvStore} {destination : String} {sources : List String}
    {merged : HyperLogLog} (hvalid : s.config.ValidKey destination) (hsources : sources ≠ [])
    (hmerged : s.mergedSketch destination sources = .ok merged) :
    (s.pfmerge destination sources).2.contents
      = Function.update s.contents destination (some ⟨.hyperLogLog merged, none⟩) := by
  rw [pfmerge_eq hvalid hsources, hmerged]
  funext k
  simp only
  split <;> exact contents_insert s destination _ k

/-- What PFMERGE does at its key. -/
def mergeCell (s : KvStore) (destination : String) (sources : List String) : CellOp :=
  if s.config.ValidKey destination ∧ sources ≠ [] then
    match s.mergedSketch destination sources with
    | .ok merged => .assign (.hyperLogLog merged) none
    | .error _ => .nop
  else .nop

theorem pfmerge_mergeCell (s : KvStore) (destination : String) (sources : List String) :
    (s.pfmerge destination sources).2.contents = Function.update s.contents destination
      ((s.mergeCell destination sources).onEntry (s.contents destination)) := by
  unfold mergeCell
  rcases pfmerge_cases s destination sources with ⟨e, he⟩ | ⟨merged, hvalid, hsources, hmerged, -⟩
  · have hnop : (if s.config.ValidKey destination ∧ sources ≠ [] then
        match s.mergedSketch destination sources with
        | .ok merged => .assign (.hyperLogLog merged) none
        | .error _ => .nop
      else .nop) = CellOp.nop := by
      split
      · next h =>
          rw [pfmerge_eq h.1 h.2] at he
          cases hmerged : s.mergedSketch destination sources with
          | ok merged => rw [hmerged] at he; cases he
          | error e => rfl
      · rfl
    rw [hnop, he, CellOp.onEntry_nop, Function.update_eq_self]
  · rw [pfmerge_contents hvalid hsources hmerged, if_pos ⟨hvalid, hsources⟩, hmerged]
    rfl

theorem pfreserve_put {s : KvStore} {key : String} (precision : Nat) (hvalid : s.config.ValidKey key)
    (hfree : s.contents key = none) :
    s.pfreserve key precision = (.ok (), s.insertEntry key
      ⟨.hyperLogLog (HyperLogLog.new precision), none⟩
      (estimateValueSize (.hyperLogLog (HyperLogLog.new precision)))) := by
  unfold pfreserve
  rw [validateKey_eq s key hvalid]
  simp only [contains_eq, hfree]
  rfl

theorem pfreserve_moves (s : KvStore) (key : String) (precision : Nat) :
    Moves s (s.pfreserve key precision).2 [(key, if s.config.ValidKey key then
      .edit id (some (.hyperLogLog (HyperLogLog.new precision))) else .nop)] := by
  unfold pfreserve
  refine Moves.validated s key ?_
  simp only [contains_eq]
  cases hkey : s.contents key with
  | none => exact Moves.insert hkey
  | some entry => exact Moves.refused hkey rfl

/-- PFRESERVE is refused and changes nothing, or it puts an empty sketch under a free key. -/
theorem pfreserve_cases (s : KvStore) (key : String) (precision : Nat) :
    (∃ e, s.pfreserve key precision = (.error e, s)) ∨
      s.config.ValidKey key ∧ s.contents key = none ∧
        s.pfreserve key precision = (.ok (), s.insertEntry key
          ⟨.hyperLogLog (HyperLogLog.new precision), none⟩
          (estimateValueSize (.hyperLogLog (HyperLogLog.new precision)))) := by
  by_cases hvalid : s.config.ValidKey key
  · cases hkey : s.contents key with
    | none => exact .inr ⟨hvalid, rfl, pfreserve_put precision hvalid hkey⟩
    | some entry =>
        left
        unfold pfreserve
        rw [validateKey_eq s key hvalid]
        simp only [contains_eq, hkey]
        exact ⟨_, rfl⟩
  · obtain ⟨e, he⟩ := validateKey_refused s key hvalid
    refine .inl ⟨e, ?_⟩
    unfold pfreserve
    rw [he]

end KvStore

end Daikon
