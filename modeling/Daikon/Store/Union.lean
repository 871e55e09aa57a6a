/-
# Daikon.Store.Union -- when PFMERGE is the union of the sketches

A missing source counts as an empty sketch of any precision, but a missing destination as one of the default
precision. So the merge is the union of what exists unless the destination is missing and its sources are of
one other precision: then it is refused (`merges_union_iff`).

What a merge should be is stated without reference to the loop: it succeeds where every key that exists is a
sketch of one precision, and then has the highest of their registers at each index (`MergesUnion`). The
exact condition under which the code does this concerns a missing destination alone. With an existing one,
empty or not, the precisions are compared as they should be.

Expired sketches are not left out of the merge, neither in the code nor in the statement, which speaks of
the keys that exist in the map.
-/
import Daikon.Store.Merge
import Daikon.Store.Text
import Mathlib.Data.Finset.Lattice.Fold
import Mathlib.Order.Lattice.Nat

namespace Daikon

namespace KvStore

/-- The sketch at a key. -/
def sketchAt (s : KvStore) (key : String) : Option HyperLogLog :=
  match s.contents key with
  | some ⟨.hyperLogLog hll, _⟩ => some hll
  | _ => none

/-- Every one of the keys that exists is a sketch of this precision. -/
def OfPrecision (s : KvStore) (keys : List String) (precision : Nat) : Prop :=
  ∀ k ∈ keys, s.contents k ≠ none → ∃ hll, s.sketchAt k = some hll ∧ hll.precision = precision

/-- The highest that the keys' sketches have a register. -/
def highest (s : KvStore) (keys : List String) (i : Nat) : Nat :=
  keys.toFinset.sup fun k => (s.sketchAt k).elim 0 (·.register i)

/-- PFMERGE is the union: it succeeds where all that exist are sketches of one precision, and then the
destination has the highest of them in each register. -/
structure MergesUnion (s : KvStore) (destination : String) (sources : List String) : Prop where
  succeeds : (∃ n, (s.pfmerge destination sources).1 = .ok n) ↔
    ∃ precision, s.OfPrecision (destination :: sources) precision
  union : ∀ n, (s.pfmerge destination sources).1 = .ok n → ∃ merged,
    (s.pfmerge destination sources).2.contents
      = Function.update s.contents destination (some ⟨.hyperLogLog merged, none⟩) ∧
    s.OfPrecision (destination :: sources) merged.precision ∧
    merged.registers.length = (s.sketchAt destination).elim (2 ^ merged.precision) (·.registers.length) ∧
    ∀ i < merged.registers.length, merged.register i = s.highest (destination :: sources) i

variable {s : KvStore} {destination : String} {sources : List String}

theorem sketchAt_eq_some_iff {key : String} {hll : HyperLogLog} :
    s.sketchAt key = some hll ↔ ∃ expiresAt, s.contents key = some ⟨.hyperLogLog hll, expiresAt⟩ := by
  unfold sketchAt
  split
  · next h => simp [h]
  · next hother =>
      constructor
      · intro h; cases h
      · rintro ⟨expiresAt, h⟩
        exact absurd h (hother hll expiresAt)

theorem sketchAt_eq_none {key : String} (h : s.contents key = none) : s.sketchAt key = none := by
  unfold sketchAt
  rw [h]

theorem mergeRefusal_eq_none_iff {precision : Nat} {p : String × Value} :
    mergeRefusal precision p = none ↔ ∃ hll, p.2 = .hyperLogLog hll ∧ hll.precision = precision := by
  obtain ⟨key, v⟩ := p
  cases v with
  | hyperLogLog hll =>
      by_cases hp : precision = hll.precision
      · rw [mergeRefusal, if_neg (not_not.mpr hp)]
        simp [hp]
      · rw [mergeRefusal, if_pos hp]
        simpa using fun h => hp h.symm
  | _ => simp [mergeRefusal]

theorem mem_sourcesFound_iff {k : String} {v : Value} :
    (k, v) ∈ sourcesFound s.contents destination sources ↔
      k ∈ sources ∧ k ≠ destination ∧ ∃ expiresAt, s.contents k = some ⟨v, expiresAt⟩ := by
  unfold sourcesFound
  rw [List.mem_filterMap]
  constructor
  · rintro ⟨k', hk', hfound⟩
    obtain ⟨⟨v', expiresAt⟩, hentry, heq⟩ := Option.map_eq_some_iff.mp hfound
    cases heq
    obtain ⟨hin, hne⟩ := List.mem_filter.mp hk'
    exact ⟨hin, by simpa using hne, expiresAt, hentry⟩
  · rintro ⟨hin, hne, expiresAt, hentry⟩
    refine ⟨k, List.mem_filter.mpr ⟨hin, by simpa using hne⟩, ?_⟩
    rw [hentry]
    rfl

/-- No source is refused if and only if all that exist are of the precision. -/
theorem sources_fit_iff {precision : Nat} :
    (sourcesFound s.contents destination sources).findSome? (mergeRefusal precision) = none ↔
      ∀ k ∈ sources, k ≠ destination → s.contents k ≠ none →
        ∃ hll, s.sketchAt k = some hll ∧ hll.precision = precision := by
  rw [List.findSome?_eq_none_iff]
  constructor
  · intro h k hk hne hentry
    obtain ⟨⟨v, expiresAt⟩, hkey⟩ := Option.ne_none_iff_exists'.mp hentry
    have hfound := mem_sourcesFound_iff.mpr ⟨hk, hne, expiresAt, hkey⟩
    obtain ⟨hll, rfl, hprecision⟩ := mergeRefusal_eq_none_iff.mp (h _ hfound)
    exact ⟨hll, sketchAt_eq_some_iff.mpr ⟨expiresAt, hkey⟩, hprecision⟩
  · rintro h ⟨k, v⟩ hfound
    obtain ⟨hk, hne, expiresAt, hkey⟩ := mem_sourcesFound_iff.mp hfound
    obtain ⟨hll, hsketch, hprecision⟩ := h k hk hne (by rw [hkey]; exact Option.some_ne_none _)
    obtain ⟨expiresAt', hkey'⟩ := sketchAt_eq_some_iff.mp hsketch
    rw [hkey] at hkey'
    cases hkey'
    exact mergeRefusal_eq_none_iff.mpr ⟨hll, rfl, hprecision⟩

theorem mem_sketches_iff {hll : HyperLogLog} :
    hll ∈ sketches (sourcesFound s.contents destination sources) ↔
      ∃ k ∈ sources, k ≠ destination ∧ s.sketchAt k = some hll := by
  unfold sketches
  rw [List.mem_filterMap]
  constructor
  · rintro ⟨⟨k, v⟩, hfound, hv⟩
    obtain ⟨hk, hne, expiresAt, hkey⟩ := mem_sourcesFound_iff.mp hfound
    cases v with
    | hyperLogLog hll' =>
        cases hv
        exact ⟨k, hk, hne, sketchAt_eq_some_iff.mpr ⟨expiresAt, hkey⟩⟩
    | _ => cases hv
  · rintro ⟨k, hk, hne, hsketch⟩
    obtain ⟨expiresAt, hkey⟩ := sketchAt_eq_some_iff.mp hsketch
    exact ⟨(k, .hyperLogLog hll), mem_sourcesFound_iff.mpr ⟨hk, hne, expiresAt, hkey⟩, rfl⟩

theorem le_highest_iff {keys : List String} {i n : Nat} (hn : 0 < n) :
    n ≤ s.highest keys i ↔ ∃ k ∈ keys, ∃ hll, s.sketchAt k = some hll ∧ n ≤ hll.register i := by
  unfold highest
  rw [Finset.le_sup_iff hn]
  simp only [List.mem_toFinset]
  refine exists_congr fun k => and_congr_right fun _ => ?_
  cases s.sketchAt k with
  | none => simp; omega
  | some hll => simp

/-! ## The start of the merge -/

theorem mergeStart_cases {start : HyperLogLog} (h : mergeStart (s.contents destination) = some start) :
    s.sketchAt destination = some start ∨ s.contents destination = none ∧ start = .default := by
  unfold mergeStart at h
  split at h
  · next hll expiresAt hkey =>
      cases h
      exact .inl (sketchAt_eq_some_iff.mpr ⟨expiresAt, hkey⟩)
  · cases h
  · next hkey =>
      cases h
      exact .inr ⟨hkey, rfl⟩

theorem mergeStart_of_sketchAt {hll : HyperLogLog} (h : s.sketchAt destination = some hll) :
    mergeStart (s.contents destination) = some hll := by
  obtain ⟨expiresAt, hkey⟩ := sketchAt_eq_some_iff.mp h
  rw [hkey]
  rfl

/-- The keys are of the precision of the start if and only if no source is refused. -/
theorem ofPrecision_start_iff {start : HyperLogLog}
    (hstart : mergeStart (s.contents destination) = some start) :
    s.OfPrecision (destination :: sources) start.precision ↔
      (sourcesFound s.contents destination sources).findSome? (mergeRefusal start.precision) = none := by
  rw [sources_fit_iff]
  constructor
  · intro h k hk _ hentry
    exact h k (List.mem_cons_of_mem _ hk) hentry
  · intro h k hk hentry
    by_cases hd : k = destination
    · subst hd
      rcases mergeStart_cases hstart with hsketch | ⟨hnone, -⟩
      · exact ⟨start, hsketch, rfl⟩
      · exact absurd hnone hentry
    · exact h k ((List.mem_cons.mp hk).resolve_left hd) hd hentry

theorem ofPrecision_cons_missing {precision : Nat} (h : s.contents destination = none) :
    s.OfPrecision (destination :: sources) precision ↔ s.OfPrecision sources precision := by
  refine List.forall_mem_cons.trans (and_iff_right ?_)
  exact fun hentry => absurd h hentry

/-- The registers of the merge are the highest of the keys. -/
theorem merged_highest {start merged : HyperLogLog}
    (hstart : mergeStart (s.contents destination) = some start) {i : Nat}
    (hreach : ∀ n, n ≤ merged.register i ↔
      Reach (start :: sketches (sourcesFound s.contents destination sources)) i n) :
    merged.register i = s.highest (destination :: sources) i := by
  apply eq_of_forall_le_iff
  intro n
  rcases Nat.eq_zero_or_pos n with rfl | hn
  · simp
  rw [hreach, le_highest_iff hn]
  constructor
  · rintro ⟨hll, hin, hle⟩
    rcases List.mem_cons.mp hin with rfl | hin
    · rcases mergeStart_cases hstart with hsketch | ⟨-, rfl⟩
      · exact ⟨destination, List.mem_cons_self, hll, hsketch, hle⟩
      · -- an empty sketch reaches nothing
        rw [HyperLogLog.default, HyperLogLog.new_register] at hle
        omega
    · obtain ⟨k, hk, -, hsketch⟩ := mem_sketches_iff.mp hin
      exact ⟨k, List.mem_cons_of_mem _ hk, hll, hsketch, hle⟩
  · rintro ⟨k, hk, hll, hsketch, hle⟩
    refine ⟨hll, ?_, hle⟩
    by_cases hd : k = destination
    · subst hd
      rw [mergeStart_of_sketchAt hsketch] at hstart
      cases hstart
      exact List.mem_cons_self
    · exact List.mem_cons_of_mem _
        (mem_sketches_iff.mpr ⟨k, (List.mem_cons.mp hk).resolve_left hd, hd, hsketch⟩)

/-- Where no source is refused, the merge is the union. -/
theorem mergesUnion_of_fit (hvalid : s.config.ValidKey destination) (hsources : sources ≠ [])
    {start : HyperLogLog} (hstart : mergeStart (s.contents destination) = some start)
    (hfit : (sourcesFound s.contents destination sources).findSome? (mergeRefusal start.precision)
      = none) : s.MergesUnion destination sources := by
  obtain ⟨merged, hmerged, hprecision, hlength, hreach⟩ := mergeAll_merged _ start hfit
  rw [← mergedSketch_of_start hstart] at hmerged
  have hkeys := (ofPrecision_start_iff hstart).mpr hfit
  have hok : (s.pfmerge destination sources).1 = .ok merged.count := by
    rw [pfmerge_eq hvalid hsources, hmerged]
  refine ⟨iff_of_true ⟨_, hok⟩ ⟨_, hkeys⟩, fun n _ => ⟨merged, pfmerge_contents hvalid hsources hmerged,
    hprecision ▸ hkeys, ?_, fun i hi => merged_highest hstart (hreach i (hlength ▸ hi))⟩⟩
  rw [hlength, hprecision]
  rcases mergeStart_cases hstart with hsketch | ⟨hnone, rfl⟩
  · rw [hsketch]
    rfl
  · rw [sketchAt_eq_none hnone]
    exact List.length_replicate

/-- Where it is refused, it should be. -/
theorem mergesUnion_refused_iff {e : KvStoreError}
    (h : (s.pfmerge destination sources).1 = .error e) : s.MergesUnion destination sources ↔
      ∀ precision, ¬ s.OfPrecision (destination :: sources) precision := by
  have hfails : ¬ ∃ n, (s.pfmerge destination sources).1 = .ok n := by
    rintro ⟨n, hn⟩
    rw [h] at hn
    cases hn
  constructor
  · intro hunion precision hkeys
    exact hfails (hunion.succeeds.mpr ⟨precision, hkeys⟩)
  · intro hno
    exact ⟨iff_of_false hfails fun ⟨precision, hkeys⟩ => hno precision hkeys,
      fun n hn => absurd ⟨n, hn⟩ hfails⟩

/-- PFMERGE is the union, if and only if the existing sources of a missing destination that are sketches
of one precision are of the default one. -/
theorem merges_union_iff (hvalid : s.config.ValidKey destination) (hsources : sources ≠ []) :
    s.MergesUnion destination sources ↔ (s.contents destination = none → ∀ precision,
      s.OfPrecision sources precision → s.OfPrecision sources HyperLogLog.defaultPrecision) := by
  cases hstart : mergeStart (s.contents destination) with
  | none =>
      obtain ⟨entry, hkey, hmismatch⟩ := mergedSketch_of_mismatch sources hstart
      have hrefused := pfmerge_eq hvalid hsources
      rw [hmismatch] at hrefused
      rw [mergesUnion_refused_iff (congrArg Prod.fst hrefused)]
      refine iff_of_true (fun precision hkeys => ?_) fun hnone => ?_
      · obtain ⟨hll, hsketch, -⟩ := hkeys destination List.mem_cons_self (by simp [hkey])
        rw [mergeStart_of_sketchAt hsketch] at hstart
        cases hstart
      · rw [hnone] at hkey
        cases hkey
  | some start =>
      cases hfit : (sourcesFound s.contents destination sources).findSome?
          (mergeRefusal start.precision) with
      | none =>
          refine iff_of_true (mergesUnion_of_fit hvalid hsources hstart hfit) fun hnone _ _ => ?_
          rcases mergeStart_cases hstart with hsketch | ⟨-, rfl⟩
          · rw [sketchAt_eq_none hnone] at hsketch
            cases hsketch
          · exact (ofPrecision_cons_missing hnone).mp ((ofPrecision_start_iff hstart).mpr hfit)
      | some e =>
          have hrefused := pfmerge_eq hvalid hsources
          rw [mergedSketch_of_start hstart, mergeAll_refused _ start hfit] at hrefused
          rw [mergesUnion_refused_iff (congrArg Prod.fst hrefused)]
          have hunfit : ¬ s.OfPrecision (destination :: sources) start.precision := by
            rw [ofPrecision_start_iff hstart, hfit]
            exact Option.some_ne_none e
          rcases mergeStart_cases hstart with hsketch | ⟨hnone, rfl⟩
          · -- the destination is a sketch, so no other precision is that of all keys
            obtain ⟨expiresAt, hkey⟩ := sketchAt_eq_some_iff.mp hsketch
            refine iff_of_true (fun precision hkeys => hunfit ?_) fun hnone => ?_
            · obtain ⟨hll, hsame, rfl⟩ := hkeys destination List.mem_cons_self (by simp [hkey])
              rw [hsketch] at hsame
              cases hsame
              exact hkeys
            · rw [hnone] at hkey
              cases hkey
          · rw [ofPrecision_cons_missing hnone] at hunfit
            refine ⟨fun hno _ precision hkeys => ?_, fun h precision hkeys => hunfit ?_⟩
            · exact absurd ((ofPrecision_cons_missing hnone).mpr hkeys) (hno precision)
            · exact h hnone precision ((ofPrecision_cons_missing hnone).mp hkeys)

/-- A store with one empty sketch, reserved with precision 12. -/
def reserved : KvStore := (new.pfreserve "src" 12).2

theorem reserved_contents : reserved.contents
    = Function.update new.contents "src" (some ⟨.hyperLogLog (.new 12), none⟩) := by
  have hreserve : new.pfreserve "src" 12 = (.ok (), new.insertEntry "src"
      ⟨.hyperLogLog (HyperLogLog.new 12), none⟩
      (estimateValueSize (.hyperLogLog (HyperLogLog.new 12)))) :=
    pfreserve_put 12 (by decide) (by simp [contents, new, withConfig])
  rw [reserved, hreserve]
  funext k
  exact contents_insert new "src" _ k

/-- Two hashes with their top bits apart. -/
def twoHashes : Runtime :=
  { Runtime.strings with hashValue := fun value => if value = "x" then 1 else 0x8000000000000001 }

/-- Two sketches, each with a value of its own. -/
def sketched : KvStore := ((new.pfadd twoHashes "dst" ["x"]).2.pfadd twoHashes "src" ["y"]).2

/-- The second is merged into the first. -/
theorem merges_union_iff_sketched : sketched.MergesUnion "dst" ["src"] := by
  refine (merges_union_iff (by decide +kernel) (by decide)).mpr fun hnone => ?_
  have hsome : (sketched.contents "dst").isSome := by decide +kernel
  rw [hnone] at hsome
  cases hsome

/-- A sketch of precision 12 cannot be merged into a key that is not there. -/
theorem missing_destination_refused : reserved.config.ValidKey "dst" ∧
    (∀ k entry, reserved.contents k = some entry → entry.expiresAt = none) ∧
    reserved.OfPrecision ["dst", "src"] 12 ∧
    (reserved.pfmerge "dst" ["src"]).1
      = .error (.invalidValue "Cannot merge HyperLogLogs with different precisions: 10 vs 12") ∧
    ¬ reserved.MergesUnion "dst" ["src"] := by
  have hnew : ∀ k, new.contents k = none := fun k => by simp [contents, new, withConfig]
  have hsrc : reserved.contents "src" = some ⟨.hyperLogLog (.new 12), none⟩ := by
    rw [reserved_contents, Function.update_self]
  have hdst : reserved.contents "dst" = none := by
    rw [reserved_contents, Function.update_of_ne (by decide), hnew]
  have hkeys : reserved.OfPrecision ["dst", "src"] 12 := by
    rintro k hk hentry
    have hk : k = "src" := by
      by_contra hne
      rw [reserved_contents, Function.update_of_ne hne, hnew] at hentry
      exact hentry rfl
    rw [hk]
    exact ⟨.new 12, sketchAt_eq_some_iff.mpr ⟨none, hsrc⟩, rfl⟩
  have herror : (reserved.pfmerge "dst" ["src"]).1
      = .error (.invalidValue "Cannot merge HyperLogLogs with different precisions: 10 vs 12") := by
    have hstart : mergeStart (reserved.contents "dst") = some .default := by rw [hdst]; rfl
    have hfound : sourcesFound reserved.contents "dst" ["src"] = [("src", .hyperLogLog (.new 12))] := by
      unfold sourcesFound
      rw [List.filter_cons_of_pos (by decide), List.filter_nil, List.filterMap_cons, hsrc]
      rfl
    rw [pfmerge_eq (by decide) (by decide), mergedSketch_of_start hstart, hfound]
    rfl
  refine ⟨by decide, fun k entry hk => ?_, hkeys, herror, fun hunion => ?_⟩
  · by_cases hkey : k = "src"
    · rw [hkey, hsrc] at hk
      cases hk
      rfl
    · rw [reserved_contents, Function.update_of_ne hkey, hnew] at hk
      cases hk
  · obtain ⟨n, hn⟩ := hunion.succeeds.mpr ⟨12, hkeys⟩
    rw [herror] at hn
    cases hn

end KvStore

end Daikon
