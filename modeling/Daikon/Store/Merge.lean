/-
# Daikon.Store.Merge -- what PFMERGE makes of the sketches it finds

The loop over the sources is refused by the first that is no sketch of the destination's precision, and
otherwise joins the registers. So two merges give the same if and only if they are refused alike, or no
register of one is ahead of those of the other (`mergeAll_eq_iff`).

The sources are taken as a list of values that were found, so that the same lemma serves a merge on the
store and one on the store without its expired entries. `Reach` says of a register and a rank that some
sketch of a list gets there; two merges are compared by it, without computing either.

The precision is that of the destination, or the default one where the destination is missing, and a source
of another type or another precision ends the merge with its own error. The order of the sources matters for
which error it is and for nothing else.
-/
import Daikon.Store.Sketch
import Mathlib.Data.List.GetD

namespace Daikon

namespace HyperLogLog

/-- A register; those that are not there are zero. -/
def register (hll : HyperLogLog) (i : Nat) : Nat := hll.registers.getD i 0

theorem new_register (precision i : Nat) : (HyperLogLog.new precision).register i = 0 := by
  show (List.replicate _ 0).getD i 0 = 0
  rw [List.getD_eq_getElem?_getD, List.getElem?_getD_replicate_default_eq]

theorem ext_register {a b : HyperLogLog} (hprecision : a.precision = b.precision)
    (hlength : a.registers.length = b.registers.length)
    (h : ∀ i < a.registers.length, a.register i = b.register i) : a = b := by
  obtain ⟨p, r⟩ := a
  obtain ⟨p', r'⟩ := b
  obtain rfl : p = p' := hprecision
  congr 1
  apply List.ext_getElem hlength
  intro i hi hi'
  have := h i hi
  simpa [register, hi, hi'] using this

theorem merge_register {a b merged : HyperLogLog} (h : a.merge b = .ok merged) {i : Nat}
    (hi : i < a.registers.length) : merged.register i = max (a.register i) (b.register i) := by
  unfold merge at h
  split at h
  · cases h
  · cases h
    unfold register
    rw [List.getD_eq_getElem _ _ hi]
    by_cases hb : i < b.registers.length
    · rw [List.getD_append _ _ _ _ (by simp [hi, hb]), List.getD_eq_getElem _ _ (by simp [hi, hb]),
        List.getElem_zipWith, List.getD_eq_getElem _ _ hb]
    · have hlen : (a.registers.zipWith max b.registers).length = b.registers.length := by
        rw [List.length_zipWith]
        omega
      rw [List.getD_append_right _ _ _ _ (by omega), hlen,
        List.getD_eq_default _ _ (by omega : b.registers.length ≤ i),
        List.getD_eq_getElem _ _ (by rw [List.length_drop]; omega), List.getElem_drop, Nat.max_zero]
      congr 1
      omega

theorem merge_precision {a b merged : HyperLogLog} (h : a.merge b = .ok merged) :
    merged.precision = a.precision := by
  unfold merge at h
  split at h
  · cases h
  · cases h
    rfl

end HyperLogLog

/-! ## The loop over the sources -/

/-- The error of a source that a merge of this precision does not take. -/
def mergeRefusal (precision : Nat) : String × Value → Option KvStoreError
  | (_, .hyperLogLog hll) =>
      if precision ≠ hll.precision then some (.invalidValue
        s!"Cannot merge HyperLogLogs with different precisions: {precision} vs {hll.precision}")
      else none
  | (key, v) => some (.typeMismatch key "HyperLogLog" v.typeName)

/-- The loop of PFMERGE, on the values that it finds. -/
def mergeAll : List (String × Value) → HyperLogLog → Except KvStoreError HyperLogLog
  | [], merged => .ok merged
  | (_, .hyperLogLog hll) :: found, merged => (merged.merge hll).bind (mergeAll found)
  | (key, v) :: _, _ => .error (.typeMismatch key "HyperLogLog" v.typeName)

/-- The sketches among the values. -/
def sketches (found : List (String × Value)) : List HyperLogLog :=
  found.filterMap fun | (_, .hyperLogLog hll) => some hll | _ => none

/-- Some sketch has the register at this rank or above. -/
def Reach (l : List HyperLogLog) (i n : Nat) : Prop := ∃ hll ∈ l, n ≤ hll.register i

theorem mergeAll_refused (found : List (String × Value)) : ∀ (start : HyperLogLog) {e : KvStoreError},
    found.findSome? (mergeRefusal start.precision) = some e → mergeAll found start = .error e := by
  induction found with
  | nil => intro start e h; cases h
  | cons p found ih =>
      intro start e h
      obtain ⟨key, v⟩ := p
      rw [List.findSome?_cons] at h
      cases v with
      | hyperLogLog hll =>
          rw [mergeAll]
          by_cases hp : start.precision = hll.precision
          · rw [mergeRefusal, if_neg (not_not.mpr hp)] at h
            obtain ⟨merged, hmerged⟩ : ∃ merged, start.merge hll = .ok merged :=
              ⟨_, if_neg (not_not.mpr hp)⟩
            rw [hmerged]
            exact ih merged (by rw [HyperLogLog.merge_precision hmerged]; exact h)
          · rw [mergeRefusal, if_pos hp] at h
            cases h
            rw [HyperLogLog.merge, if_pos hp]
            rfl
      | _ => cases h; rfl

/-- A merge that is not refused keeps the precision and the number of registers, and a register reaches
what one of the sketches does. -/
theorem mergeAll_merged (found : List (String × Value)) : ∀ start : HyperLogLog,
    found.findSome? (mergeRefusal start.precision) = none →
      ∃ merged, mergeAll found start = .ok merged ∧ merged.precision = start.precision ∧
        merged.registers.length = start.registers.length ∧ ∀ i < start.registers.length, ∀ n,
          n ≤ merged.register i ↔ Reach (start :: sketches found) i n := by
  induction found with
  | nil =>
      intro start _
      exact ⟨start, rfl, rfl, rfl, fun i _ n => by simp [Reach, sketches]⟩
  | cons p found ih =>
      intro start h
      obtain ⟨key, v⟩ := p
      rw [List.findSome?_cons] at h
      cases v with
      | hyperLogLog hll =>
          by_cases hp : start.precision = hll.precision
          · rw [mergeRefusal, if_neg (not_not.mpr hp)] at h
            obtain ⟨next, hnext⟩ : ∃ next, start.merge hll = .ok next :=
              ⟨_, if_neg (not_not.mpr hp)⟩
            have hlen := HyperLogLog.merge_registers_length hnext
            have hprec := HyperLogLog.merge_precision hnext
            obtain ⟨merged, hmerged, hprecision, hlength, hreach⟩ := ih next (by rw [hprec]; exact h)
            refine ⟨merged, ?_, hprecision.trans hprec, hlength.trans hlen, fun i hi n => ?_⟩
            · rw [mergeAll, hnext]
              exact hmerged
            · have hmax := HyperLogLog.merge_register hnext hi
              rw [hreach i (hlen ▸ hi) n]
              simp only [Reach, sketches, List.filterMap_cons, List.mem_cons, exists_eq_or_imp, hmax,
                le_max_iff, or_assoc]
          · rw [mergeRefusal, if_pos hp] at h
            cases h
      | _ => cases h

/-- Two merges, the second of no more sketches than the first, give the same. -/
theorem mergeAll_eq_iff {found found' : List (String × Value)} {start start' : HyperLogLog}
    (hfewer : ∀ i n, Reach (start' :: sketches found') i n → n = 0 ∨ Reach (start :: sketches found) i n) :
    mergeAll found start = mergeAll found' start' ↔
      found.findSome? (mergeRefusal start.precision)
          = found'.findSome? (mergeRefusal start'.precision) ∧
        (found.findSome? (mergeRefusal start.precision) = none →
          start.precision = start'.precision ∧ start.registers.length = start'.registers.length ∧
            ∀ hll ∈ start :: sketches found, ∀ i < start.registers.length,
              Reach (start' :: sketches found') i (hll.register i)) := by
  cases h : found.findSome? (mergeRefusal start.precision) with
  | some e =>
      rw [mergeAll_refused found start h]
      cases h' : found'.findSome? (mergeRefusal start'.precision) with
      | some e' => simp [mergeAll_refused found' start' h']
      | none =>
          obtain ⟨merged', hmerged', -⟩ := mergeAll_merged found' start' h'
          simp [hmerged']
  | none =>
      obtain ⟨merged, hmerged, hprecision, hlength, hreach⟩ := mergeAll_merged found start h
      rw [hmerged]
      cases h' : found'.findSome? (mergeRefusal start'.precision) with
      | some e' => simp [mergeAll_refused found' start' h']
      | none =>
          obtain ⟨merged', hmerged', hprecision', hlength', hreach'⟩ := mergeAll_merged found' start' h'
          rw [hmerged']
          simp only [Except.ok.injEq, true_and, forall_const]
          constructor
          · rintro rfl
            have hlen := hlength.symm.trans hlength'
            refine ⟨hprecision.symm.trans hprecision', hlen, fun hll hin i hi => ?_⟩
            rw [← hreach' i (hlen ▸ hi), hreach i hi]
            exact ⟨hll, hin, Nat.le_refl _⟩
          · rintro ⟨hp, hl, hcover⟩
            apply HyperLogLog.ext_register (hprecision.trans (hp.trans hprecision'.symm))
              (hlength.trans (hl.trans hlength'.symm))
            intro i hi
            rw [hlength] at hi
            apply Nat.le_antisymm
            · obtain ⟨hll, hin, hle⟩ := (hreach i hi _).mp (Nat.le_refl _)
              obtain ⟨hll', hin', hle'⟩ := hcover hll hin i hi
              exact (hreach' i (hl ▸ hi) _).mpr ⟨hll', hin', hle.trans hle'⟩
            · rcases hfewer i _ ((hreach' i (hl ▸ hi) _).mp (Nat.le_refl _)) with hzero | hmore
              · omega
              · exact (hreach i hi _).mpr hmore

/-! ## What PFMERGE finds -/

/-- The sources but the destination that have an entry, with their values. -/
def sourcesFound (m : String → Option ValueWithTTL) (destination : String) (sources : List String) :
    List (String × Value) :=
  (sources.filter (· ≠ destination)).filterMap fun k => (m k).map fun entry => (k, entry.value)

/-- The sketch that the merge starts from, unless the destination has another type. -/
def mergeStart : Option ValueWithTTL → Option HyperLogLog
  | some ⟨.hyperLogLog hll, _⟩ => some hll
  | some _ => none
  | none => some .default

namespace KvStore

theorem mergeSources_eq (s : KvStore) (destination : String) (sources : List String) :
    ∀ start, mergeSources s destination sources start
      = mergeAll (sourcesFound s.contents destination sources) start := by
  induction sources with
  | nil => intro start; rfl
  | cons source sources ih =>
      intro start
      unfold mergeSources sourcesFound
      by_cases hsource : source = destination
      · rw [if_pos hsource, ih, List.filter_cons_of_neg (by simpa using hsource)]
        rfl
      · rw [if_neg hsource, List.filter_cons_of_pos (by simpa using hsource), List.filterMap_cons]
        unfold contents
        cases hkey : s.store[source]? with
        | none => exact ih start
        | some entry =>
            obtain ⟨v, expiresAt⟩ := entry
            cases v with
            | hyperLogLog hll =>
                simp only [Option.map_some, mergeAll]
                cases start.merge hll with
                | error e => rfl
                | ok merged => exact ih merged
            | _ => rfl

theorem mergedSketch_of_start {s : KvStore} {destination : String} {sources : List String}
    {start : HyperLogLog} (h : mergeStart (s.contents destination) = some start) :
    s.mergedSketch destination sources
      = mergeAll (sourcesFound s.contents destination sources) start := by
  unfold mergedSketch
  unfold contents at h
  split
  · next hkey =>
      rw [hkey] at h
      cases h
      exact mergeSources_eq s destination sources _
  · next entry hother hkey =>
      rw [hkey] at h
      obtain ⟨v, expiresAt⟩ := entry
      cases v with
      | hyperLogLog hll => exact absurd rfl (hother hll expiresAt)
      | _ => cases h
  · next hkey =>
      rw [hkey] at h
      cases h
      exact mergeSources_eq s destination sources _

/-- A destination of another type. -/
theorem mergedSketch_of_mismatch {s : KvStore} {destination : String} (sources : List String)
    (h : mergeStart (s.contents destination) = none) : ∃ entry, s.contents destination = some entry ∧
      s.mergedSketch destination sources
        = .error (.typeMismatch destination "HyperLogLog" entry.value.typeName) := by
  unfold mergedSketch
  unfold contents at h ⊢
  cases hkey : s.store[destination]? with
  | none => rw [hkey] at h; cases h
  | some entry =>
      rw [hkey] at h
      obtain ⟨v, expiresAt⟩ := entry
      cases v with
      | hyperLogLog hll => cases h
      | _ => exact ⟨_, rfl, rfl⟩

end KvStore

end Daikon
