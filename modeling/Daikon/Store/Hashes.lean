/-
# Daikon.Store.Hashes -- hashes are finite maps with exact counts

`hset` and `hdel` on one key, from the key missing on, do what inserts and removals do to a finite map, and
count what these bring in and take out; the seven readers show that map (`hashes_are_dictionaries`). A hash
that was emptied stays stored, and stands for the same map as a missing key.

The finite map of `Lib.Dictionary` is Mathlib's, and the hash a tree of the standard library; they are
related by having the same pairs (`Fields.Represents`), not by a function from one to the other, as the
order of the fields means nothing. `hset` is given a map, so no field comes twice in one call, while `hdel`
is given a list, and a field that is named twice goes once.

The counts are exact for the whole run: the number of fields is what all `hset` have brought in less what
all `hdel` have taken out, whatever else was answered in between.
-/
import Daikon.Lib.Dictionary
import Daikon.Store.Deque
import Daikon.Store.Fields
import Daikon.Store.Reads

namespace Daikon

open Lib.Dictionary (Dict Update setAll removeAll)

/-- A hash stands for a finite map: it has the same fields with the same texts. -/
def Fields.Represents (map : Fields) (m : Dict String String) : Prop := ∀ f, map[f]? = m.lookup f

namespace Fields.Represents

variable {map : Fields} {m : Dict String String}

theorem empty : Represents ∅ ∅ := fun f => by
  rw [Finmap.lookup_empty]
  exact Std.ExtTreeMap.getElem?_empty

theorem insert (h : map.Represents m) (f text : String) :
    Fields.Represents (map.insert f text) (m.insert f text) := by
  intro g
  by_cases hg : g = f
  · subst hg
    rw [Std.ExtTreeMap.getElem?_insert_self, Finmap.lookup_insert]
  · rw [Lib.Lookup.getElem?_insert, if_neg hg, Finmap.lookup_insert_of_ne m hg, h g]

theorem erase (h : map.Represents m) (f : String) : Fields.Represents (map.erase f) (m.erase f) := by
  intro g
  by_cases hg : g = f
  · subst hg
    rw [Std.ExtTreeMap.getElem?_erase_self, Finmap.lookup_erase]
  · rw [Lib.Lookup.getElem?_erase, if_neg hg, Finmap.lookup_erase_ne hg, h g]

theorem contains (h : map.Represents m) (f : String) : map.contains f = decide (f ∈ m) := by
  rw [Std.ExtTreeMap.contains_eq_isSome_getElem?, h f, Bool.eq_iff_iff, decide_eq_true_iff]
  exact Finmap.lookup_isSome

/-- The pairs of the hash are those of the map, each once. -/
theorem entries (h : map.Represents m) :
    ((map.toList.map fun p => (⟨p.1, p.2⟩ : (_ : String) × String) : List _) : Multiset _) = m.entries := by
  have hkeys : (map.toList.map Prod.fst).Nodup := Lib.Lookup.nodup_keys_toList map
  have hpairs : (map.toList.map fun p => (⟨p.1, p.2⟩ : (_ : String) × String)).Nodup := by
    refine List.Nodup.of_map Sigma.fst ?_
    rwa [List.map_map]
  refine (Multiset.Nodup.ext (Multiset.coe_nodup.mpr hpairs) m.nodup_entries).mpr fun p => ?_
  obtain ⟨f, text⟩ := p
  rw [Multiset.mem_coe, List.mem_map, ← Finmap.lookup_eq_some_iff, ← h f,
    ← Std.ExtTreeMap.mem_toList_iff_getElem?_eq_some]
  constructor
  · rintro ⟨⟨f', text'⟩, hin, heq⟩
    cases heq
    exact hin
  · exact fun hin => ⟨(f, text), hin, rfl⟩

theorem keys (h : map.Represents m) :
    ((map.toList.map Prod.fst : List String) : Multiset String) = m.keys.val := by
  show _ = m.entries.keys
  rw [← h.entries, Multiset.coe_keys, List.keys, List.map_map]
  rfl

theorem values (h : map.Represents m) :
    ((map.toList.map Prod.snd : List String) : Multiset String) = m.entries.map Sigma.snd := by
  rw [← h.entries, Multiset.map_coe, List.map_map]
  rfl

theorem size (h : map.Represents m) : map.size = Lib.Dictionary.size m := by
  have hcard := congrArg Multiset.card h.keys
  rwa [Multiset.coe_card, List.length_map, Std.ExtTreeMap.length_toList] at hcard

end Fields.Represents

namespace KvStore

/-! ## The loops of the updates -/

section

variable {map : Fields} {m : Dict String String}

/-- The loop of `hset` counts the fields that come in. -/
theorem insertFields_represents (h : map.Represents m) (fields : Fields) :
    Fields.Represents (insertFields map fields).1 (setAll fields.toList m) ∧
      (insertFields map fields).2 = Lib.Dictionary.size (setAll fields.toList m) - Lib.Dictionary.size m := by
  have hloop : ∀ (pairs : List (String × String)) (map : Fields) (m : Dict String String) (n : Nat),
      map.Represents m →
      Fields.Represents (pairs.foldl (fun acc p => (acc.1.insert p.1 p.2,
          if acc.1.contains p.1 then acc.2 else acc.2 + 1)) (map, n)).1 (setAll pairs m) ∧
        (pairs.foldl (fun acc p => (acc.1.insert p.1 p.2,
          if acc.1.contains p.1 then acc.2 else acc.2 + 1)) (map, n)).2 + Lib.Dictionary.size m
          = n + Lib.Dictionary.size (setAll pairs m) := by
    intro pairs
    induction pairs with
    | nil => exact fun map m n h => ⟨h, rfl⟩
    | cons p pairs ih =>
        intro map m n h
        obtain ⟨hmap, hcount⟩ := ih _ _ (if map.contains p.1 then n else n + 1) (h.insert p.1 p.2)
        refine ⟨hmap, ?_⟩
        rw [h.contains p.1, Lib.Dictionary.size_insert] at hcount
        rw [List.foldl_cons, h.contains p.1]
        by_cases hin : p.1 ∈ m
        · simp only [hin, decide_true, if_true] at hcount ⊢
          exact hcount
        · simp only [hin, decide_false, if_false, Bool.false_eq_true] at hcount ⊢
          have heq : setAll (p :: pairs) m = setAll pairs (m.insert p.1 p.2) := rfl
          rw [heq]
          omega
  obtain ⟨hmap, hcount⟩ := hloop fields.toList map m 0 h
  exact ⟨hmap, by unfold insertFields; omega⟩

/-- The loop of `hdel` counts the fields that go. -/
theorem removeFields_represents (h : map.Represents m) (fields : List String) :
    Fields.Represents (removeFields map fields).1 (removeAll fields m) ∧
      (removeFields map fields).2 = Lib.Dictionary.size m - Lib.Dictionary.size (removeAll fields m) := by
  have hloop : ∀ (fields : List String) (map : Fields) (m : Dict String String) (n : Nat),
      map.Represents m →
      Fields.Represents (fields.foldl (fun acc f => (acc.1.erase f,
          if acc.1.contains f then acc.2 + 1 else acc.2)) (map, n)).1 (removeAll fields m) ∧
        (fields.foldl (fun acc f => (acc.1.erase f,
          if acc.1.contains f then acc.2 + 1 else acc.2)) (map, n)).2
          + Lib.Dictionary.size (removeAll fields m) = n + Lib.Dictionary.size m := by
    intro fields
    induction fields with
    | nil => exact fun map m n h => ⟨h, rfl⟩
    | cons f fields ih =>
        intro map m n h
        obtain ⟨hmap, hcount⟩ := ih _ _ (if map.contains f then n + 1 else n) (h.erase f)
        refine ⟨hmap, ?_⟩
        have hsize := Lib.Dictionary.size_erase m f
        have heq : removeAll (f :: fields) m = removeAll fields (m.erase f) := rfl
        rw [h.contains f] at hcount
        rw [List.foldl_cons, h.contains f, heq]
        by_cases hin : f ∈ m
        · simp only [hin, decide_true, if_true] at hcount hsize ⊢
          omega
        · simp only [hin, decide_false, if_false, Bool.false_eq_true] at hcount hsize ⊢
          omega
  obtain ⟨hmap, hcount⟩ := hloop fields map m 0 h
  exact ⟨hmap, by unfold removeFields; omega⟩

end

/-! ## The calls -/

/-- The two updates of a hash; `hset` is given a map. -/
inductive HashUpdate where
  | hset (fields : Fields)
  | hdel (fields : List String)

/-- The inserts and removals that correspond. -/
def HashUpdate.update : HashUpdate → Update String String
  | .hset fields => .set fields.toList
  | .hdel fields => .remove fields

/-- The call of the store that makes an update. -/
def hashCall (s : KvStore) (key : String) : HashUpdate → Except KvStoreError Nat × KvStore
  | .hset fields => s.hset key fields
  | .hdel fields => s.hdel key fields

/-- The counts that a list of updates returns, and the store it leaves. -/
def hashCalls (s : KvStore) (key : String) : List HashUpdate → List (Except KvStoreError Nat) × KvStore
  | [] => ([], s)
  | u :: us =>
      let rest := hashCalls (s.hashCall key u).2 key us
      ((s.hashCall key u).1 :: rest.1, rest.2)

/-- The key holds the map, without an expiry, or is missing and the map is empty. -/
def HoldsHash (s : KvStore) (key : String) (m : Dict String String) : Prop :=
  (∃ map : Fields, s.contents key = some ⟨.hash map, none⟩ ∧ map.Represents m) ∨
    m = ∅ ∧ s.contents key = none

/-- What the seven readers of a hash answer at any time is the map. The order of `hkeys` and `hvals` is left
open, as `HashMap` leaves it. -/
structure ShowsHash (s : KvStore) (key : String) (m : Dict String String) : Prop where
  hget : ∀ now f, s.hget now key f = .ok (m.lookup f)
  hmget : ∀ now fields, s.hmget now key fields = .ok (fields.map fun f => m.lookup f)
  hgetall : ∀ now, ∃ map : Fields, s.hgetall now key = .ok map ∧ map.Represents m
  hkeys : ∀ now, ∃ keys : List String, s.hkeys now key = .ok keys ∧ (keys : Multiset String) = m.keys.val
  hvals : ∀ now, ∃ texts : List String, s.hvals now key = .ok texts ∧
    (texts : Multiset String) = m.entries.map Sigma.snd
  hlen : ∀ now, s.hlen now key = .ok (Lib.Dictionary.size m)
  hexists : ∀ now f, s.hexists now key f = .ok (decide (f ∈ m))

section

variable {s : KvStore} {key : String} {m : Dict String String}

/-- The common body of the readers. -/
theorem HoldsHash.readHash {α : Type} (h : s.HoldsHash key m) (now : Nat) (f : Fields → α) {missing : α}
    (hmissing : f ∅ = missing) :
    ∃ map : Fields, s.readHash now key f missing = .ok (f map) ∧ map.Represents m := by
  unfold KvStore.readHash KvStore.get
  rcases h with ⟨map, hmap, hrep⟩ | ⟨rfl, hnone⟩
  · rw [show s.store[key]? = _ from hmap]
    exact ⟨map, rfl, hrep⟩
  · rw [show s.store[key]? = _ from hnone]
    exact ⟨∅, congrArg Except.ok hmissing.symm, .empty⟩

theorem HoldsHash.shows (h : s.HoldsHash key m) : s.ShowsHash key m where
  hget := fun now f => by
    obtain ⟨map, hread, hrep⟩ := h.readHash now (fun map => map[f]?) (Fields.Represents.empty f)
    rw [KvStore.hget, ← hrep f]
    exact hread
  hmget := fun now fields => by
    obtain ⟨map, hread, hrep⟩ := h.readHash now (fun map => fields.map fun f => map[f]?)
      (List.map_congr_left fun f _ => Fields.Represents.empty f)
    rw [KvStore.hmget, ← funext hrep]
    exact hread
  hgetall := fun now => h.readHash now id rfl
  hkeys := fun now => by
    obtain ⟨map, hread, hrep⟩ := h.readHash now (fun map => map.toList.map Prod.fst) rfl
    exact ⟨_, hread, hrep.keys⟩
  hvals := fun now => by
    obtain ⟨map, hread, hrep⟩ := h.readHash now (fun map => map.toList.map Prod.snd) rfl
    exact ⟨_, hread, hrep.values⟩
  hlen := fun now => by
    obtain ⟨map, hread, hrep⟩ := h.readHash now (fun map => map.size) rfl
    rw [KvStore.hlen, ← hrep.size]
    exact hread
  hexists := fun now f => by
    obtain ⟨map, hread, hrep⟩ := h.readHash now (fun map => map.contains f) rfl
    rw [KvStore.hexists, ← hrep.contains f]
    exact hread

/-! ## One update -/

theorem hset_holds (hvalid : s.config.ValidKey key) (h : s.HoldsHash key m) (fields : Fields) :
    (s.hset key fields).1 = .ok (Lib.Dictionary.size (setAll fields.toList m) - Lib.Dictionary.size m) ∧
      (s.hset key fields).2.HoldsHash key (setAll fields.toList m) ∧
      OnlyAt s (s.hset key fields).2 key := by
  unfold hset
  rw [validateKey_eq s key hvalid]
  rcases h with ⟨map, hmap, hrep⟩ | ⟨rfl, hnone⟩
  · obtain ⟨hinserted, hcount⟩ := insertFields_represents hrep fields
    rw [show s.store[key]? = _ from hmap]
    exact ⟨congrArg Except.ok hcount, .inl ⟨_, contents_of_put rfl, hinserted⟩, .of_put rfl rfl⟩
  · -- a new hash has the given fields, as if they had been inserted into an empty one
    have hself : (insertFields ∅ fields).1 = fields := by
      apply Std.ExtTreeMap.ext_getElem?
      intro f
      rw [insertFields_getElem?, Std.ExtTreeMap.getElem?_empty, Option.or_none]
    have hinserted := (insertFields_represents Fields.Represents.empty fields).1
    rw [hself] at hinserted
    rw [show s.store[key]? = _ from hnone]
    refine ⟨?_, .inl ⟨fields, contents_of_put rfl, hinserted⟩, .of_put rfl rfl⟩
    rw [hinserted.size]
    rfl

theorem hdel_holds (h : s.HoldsHash key m) (fields : List String) :
    (s.hdel key fields).1 = .ok (Lib.Dictionary.size m - Lib.Dictionary.size (removeAll fields m)) ∧
      (s.hdel key fields).2.HoldsHash key (removeAll fields m) ∧
      OnlyAt s (s.hdel key fields).2 key := by
  unfold hdel
  rcases h with ⟨map, hmap, hrep⟩ | ⟨rfl, hnone⟩
  · obtain ⟨hremoved, hcount⟩ := removeFields_represents hrep fields
    rw [show s.store[key]? = _ from hmap]
    exact ⟨congrArg Except.ok hcount, .inl ⟨_, contents_of_put rfl, hremoved⟩, .of_put rfl rfl⟩
  · have hempty : removeAll fields (∅ : Dict String String) = ∅ := by
      have hsize := Nat.le_zero.mp (Lib.Dictionary.removeAll_size_le fields (∅ : Dict String String))
      exact Lib.Dictionary.eq_empty_of_size hsize
    rw [show s.store[key]? = _ from hnone, hempty]
    exact ⟨rfl, .inr ⟨rfl, hnone⟩, .refl s key⟩

/-- One update does to the hash what the inserts or removals do to the map, and nothing else. -/
theorem hashCall_step (hvalid : s.config.ValidKey key) (h : s.HoldsHash key m) (u : HashUpdate) :
    (s.hashCall key u).1 = .ok (Lib.Dictionary.step m u.update).1 ∧
      (s.hashCall key u).2.HoldsHash key (Lib.Dictionary.step m u.update).2 ∧
      OnlyAt s (s.hashCall key u).2 key := by
  cases u with
  | hset fields => exact hset_holds hvalid h fields
  | hdel fields => exact hdel_holds h fields

/-! ## Runs -/

theorem hashCalls_run (us : List HashUpdate) : ∀ {s : KvStore} {m : Dict String String},
    s.config.ValidKey key → s.HoldsHash key m →
      (s.hashCalls key us).1 = (Lib.Dictionary.run m (us.map HashUpdate.update)).1.map .ok ∧
        (s.hashCalls key us).2.HoldsHash key (Lib.Dictionary.run m (us.map HashUpdate.update)).2 ∧
        OnlyAt s (s.hashCalls key us).2 key := by
  induction us with
  | nil => exact fun _ h => ⟨rfl, h, .refl _ key⟩
  | cons u us ih =>
      intro s m hvalid h
      obtain ⟨hcount, hnext, honly⟩ := hashCall_step hvalid h u
      obtain ⟨hcounts, hlast, hrest⟩ := ih (honly.config ▸ hvalid) hnext
      refine ⟨?_, hlast, honly.trans hrest⟩
      show _ :: _ = _ :: _
      rw [hcount, hcounts]

/-- What is returned for a key that no `hset` may create. -/
def refusedCount (e : KvStoreError) : HashUpdate → Except KvStoreError Nat
  | .hset _ => .error e
  | .hdel _ => .ok 0

theorem hashCalls_refused {e : KvStoreError} (hmissing : s.contents key = none)
    (hrefused : s.validateKey key = .error e) (us : List HashUpdate) :
    s.hashCalls key us = (us.map (refusedCount e), s) := by
  have hcall : ∀ u, s.hashCall key u = (refusedCount e u, s) := by
    intro u
    cases u with
    | hset fields => simp only [hashCall, hset, hrefused]; rfl
    | hdel fields => simp only [hashCall, hdel, show s.store[key]? = none from hmissing]; rfl
  induction us with
  | nil => rfl
  | cons u us ih => rw [hashCalls, hcall, ih]; rfl

end

/-- From a missing key on, `hset` and `hdel` do what inserts and removals do to a finite map and touch no
other key, the seven readers show that map, and `hlen` is what the calls of `hset` have counted less what
those of `hdel` have. Under a key outside the limits every `hset` is refused, and it stays missing. -/
theorem hashes_are_dictionaries (s : KvStore) (key : String) (hmissing : s.contents key = none)
    (us : List HashUpdate) :
    (s.config.ValidKey key →
      (s.hashCalls key us).1 = (Lib.Dictionary.run ∅ (us.map HashUpdate.update)).1.map .ok ∧
      (s.hashCalls key us).2.ShowsHash key (Lib.Dictionary.run ∅ (us.map HashUpdate.update)).2 ∧
      (∀ k, k ≠ key → (s.hashCalls key us).2.contents k = s.contents k) ∧
      ∀ now, ∃ len : Nat, (s.hashCalls key us).2.hlen now key = .ok len ∧
        (len : Int) = ((us.map HashUpdate.update).zipWith Lib.Dictionary.signed
          (Lib.Dictionary.run ∅ (us.map HashUpdate.update)).1).sum) ∧
    ∀ e, s.validateKey key = .error e → s.hashCalls key us = (us.map (refusedCount e), s) := by
  refine ⟨fun hvalid => ?_, fun e he => hashCalls_refused hmissing he us⟩
  have hempty : s.HoldsHash key ∅ := .inr ⟨rfl, hmissing⟩
  obtain ⟨hcounts, hlast, honly⟩ := hashCalls_run us hvalid hempty
  refine ⟨hcounts, hlast.shows, honly.frame, fun now => ⟨_, hlast.shows.hlen now, ?_⟩⟩
  rw [Lib.Dictionary.run_balance]
  exact zero_add _

/-- Two fields come in, one of them twice, and the other goes. -/
def someUpdates : List HashUpdate :=
  [.hset (.ofList [("a", "1"), ("b", "2")]), .hset (.ofList [("a", "3")]), .hdel ["b", "b", "c"]]

theorem hashes_are_dictionaries_some : (new.hashCalls "h" someUpdates).2.hget 0 "h" "a" = .ok (some "3") := by
  have hmap := ((hashes_are_dictionaries new "h" (by decide +kernel) someUpdates).1 (by decide)).2.1
  rw [hmap.hget]
  decide +kernel

end KvStore

end Daikon
