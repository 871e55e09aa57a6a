/-
# Daikon.Store.Plain -- stores without floats and JSON values

A float that is not finite and a JSON value that is nested too deep are all that a file cannot give back.
A store without either is `Savable`, and it stays so as long as no call brings one (`Plain.write`): what a
call makes of a value is of the type of that value, but for the values it puts.

Of a sketch it is asked that its precision and its registers are bytes, which they are in the source by
their type. Adding a value writes a rank of eight bits, merging takes the larger of two registers, and a new
sketch is empty, so that the numbers of the model stay in that range.
-/
import Daikon.Store.File
import Daikon.Store.Memory

namespace Daikon

/-- Neither a float nor a JSON value, and if a sketch, then one of bytes. -/
def Value.plain : Value → Bool
  | .float _ | .json _ => false
  | .hyperLogLog hll => hll.ofBytes
  | _ => true

theorem Value.plain_savable {v : Value} (h : v.plain = true) (ser : Serializer) (n : Nat) :
    v.readable ∧ v.nestedWithin ser n := by
  cases v with
  | float x => cases h
  | json j => cases h
  | hyperLogLog hll => exact ⟨h, rfl⟩
  | _ => exact ⟨rfl, rfl⟩

theorem Value.plain_floatless {v : Value} (h : v.plain = true) (ser : Serializer) :
    v.floatless ser = true := by
  cases v with
  | float x => cases h
  | json j => cases h
  | _ => rfl

/-! ## Sketches of bytes -/

namespace HyperLogLog

variable {hll other merged : HyperLogLog}

theorem ofBytes_iff : hll.ofBytes = true ↔ hll.precision < 2 ^ 8 ∧ ∀ r ∈ hll.registers, r < 2 ^ 8 := by
  simp [ofBytes]

theorem default_ofBytes : default.ofBytes = true := by
  rw [ofBytes_iff]
  refine ⟨by decide, fun r hr => ?_⟩
  rw [List.eq_of_mem_replicate hr]
  decide

theorem add_ofBytes (h : hll.ofBytes = true) (hashValue : String → UInt64) (value : String) :
    (hll.add hashValue value).1.ofBytes = true := by
  obtain ⟨hprecision, hregisters⟩ := ofBytes_iff.mp h
  unfold add
  simp only
  split
  · split
    · refine ofBytes_iff.mpr ⟨hprecision, fun r hr => ?_⟩
      rcases List.mem_or_eq_of_mem_set hr with hold | rfl
      · exact hregisters r hold
      · exact Nat.mod_lt _ (by decide)
    · exact h
  · exact h

theorem addAll_ofBytes (hashValue : String → UInt64) (values : List String) :
    ∀ {hll : HyperLogLog}, hll.ofBytes = true → (addAll hashValue values hll).ofBytes = true := by
  induction values with
  | nil => exact fun h => h
  | cons value values ih => exact fun h => ih (add_ofBytes h hashValue value)

theorem merge_ofBytes (h : hll.ofBytes = true) (hother : other.ofBytes = true)
    (hmerged : hll.merge other = .ok merged) : merged.ofBytes = true := by
  obtain ⟨hprecision, hregisters⟩ := ofBytes_iff.mp h
  obtain ⟨-, hothers⟩ := ofBytes_iff.mp hother
  unfold merge at hmerged
  split at hmerged
  · cases hmerged
  · cases hmerged
    refine ofBytes_iff.mpr ⟨hprecision, fun r hr => ?_⟩
    rcases List.mem_append.mp hr with hboth | hrest
    · rw [← List.map_uncurry_zip_eq_zipWith, List.mem_map] at hboth
      obtain ⟨⟨a, b⟩, hab, rfl⟩ := hboth
      obtain ⟨ha, hb⟩ := List.of_mem_zip hab
      exact max_lt (hregisters a ha) (hothers b hb)
    · exact hregisters r (List.mem_of_mem_drop hrest)

end HyperLogLog

namespace CellOp

/-- A plain value, or none, becomes a plain one, or none. -/
structure KeepsPlain (op : CellOp) : Prop where
  onEntry : ∀ e : Option ValueWithTTL, (∀ entry ∈ e, entry.value.plain = true) →
    ∀ entry ∈ op.onEntry e, entry.value.plain = true

theorem edit_plain {f : Value → Value} {first : Option Value}
    (hf : ∀ v : Value, v.plain = true → (f v).plain = true) (hfirst : ∀ v ∈ first, v.plain = true) :
    (edit f first).KeepsPlain := by
  refine ⟨fun e he entry hentry => ?_⟩
  cases e with
  | some old =>
      obtain rfl := Option.mem_some_iff.mp hentry
      exact hf old.value (he old rfl)
  | none =>
      obtain ⟨v, hv, rfl⟩ := Option.mem_map.mp hentry
      exact hfirst v hv

theorem nop_plain : nop.KeepsPlain := edit_plain (fun _ h => h) fun v hv => by cases hv

theorem assign_plain {v : Value} (hv : v.plain = true) (expiresAt : Option Nat) :
    (assign v expiresAt).KeepsPlain := by
  constructor
  rintro e - entry ⟨⟩
  exact hv

theorem assignIf_plain {v : Value} (hv : v.plain = true) (cfg : StoreConfig) (inTx : Bool) (key : String)
    (expiresAt : Option Nat) : (assignIf cfg inTx key v expiresAt).KeepsPlain := by
  unfold assignIf
  split
  · exact assign_plain hv expiresAt
  · exact nop_plain

theorem remove_plain : remove.KeepsPlain := by
  constructor
  rintro e - entry ⟨⟩

theorem retime_plain (g : ValueWithTTL → Option Nat) : (retime g).KeepsPlain := by
  refine ⟨fun e he entry hentry => ?_⟩
  cases e with
  | some old =>
      obtain rfl := Option.mem_some_iff.mp hentry
      exact he old rfl
  | none => cases hentry

theorem addInt_plain (amount : Int64) : (addInt amount).KeepsPlain := by
  refine edit_plain (fun v hv => ?_) fun v hv => by cases hv
  cases v with
  | int i => rfl
  | _ => exact hv

theorem appendStr_plain (cfg : StoreConfig) (inTx : Bool) (key value : String) :
    (appendStr cfg inTx key value).KeepsPlain := by
  refine edit_plain (fun v hv => ?_) fun v hv => ?_
  · cases v with
    | str old => rfl
    | _ => exact hv
  · split at hv
    · obtain rfl := Option.mem_some_iff.mp hv
      rfl
    · cases hv

theorem pushList_plain (cfg : StoreConfig) (push : List String → List String → List String) (key : String)
    (values : List String) : (pushList cfg push key values).KeepsPlain := by
  unfold pushList
  split
  · refine edit_plain (fun v hv => ?_) fun v hv => ?_
    · cases v with
      | list items => rfl
      | _ => exact hv
    · obtain rfl := Option.mem_some_iff.mp hv
      rfl
  · exact nop_plain

theorem popList_plain (pop : List String → Option (String × List String)) : (popList pop).KeepsPlain := by
  refine edit_plain (fun v hv => ?_) fun v hv => by cases hv
  cases v with
  | list items => rfl
  | _ => exact hv

theorem setFields_plain (cfg : StoreConfig) (key : String) (fields : Fields) :
    (setFields cfg key fields).KeepsPlain := by
  unfold setFields
  split
  · refine edit_plain (fun v hv => ?_) fun v hv => ?_
    · cases v with
      | hash map => rfl
      | _ => exact hv
    · obtain rfl := Option.mem_some_iff.mp hv
      rfl
  · exact nop_plain

theorem deleteFields_plain (fields : List String) : (deleteFields fields).KeepsPlain := by
  refine edit_plain (fun v hv => ?_) fun v hv => by cases hv
  cases v with
  | hash map => rfl
  | _ => exact hv

theorem addField_plain {N : Type} (cfg : StoreConfig) (parse : String → Option N) (zero : N)
    (add : N → N → N) (show_ : N → String) (key field : String) (amount : N) :
    (addField cfg parse zero add show_ key field amount).KeepsPlain := by
  unfold addField
  split
  · refine edit_plain (fun v hv => ?_) fun v hv => ?_
    · cases v with
      | hash map => rfl
      | _ => exact hv
    · obtain rfl := Option.mem_some_iff.mp hv
      rfl
  · exact nop_plain

theorem addValues_plain (rt : Runtime) (cfg : StoreConfig) (key : String) (values : List String) :
    (addValues rt cfg key values).KeepsPlain := by
  unfold addValues
  split
  · split
    · exact nop_plain
    · refine edit_plain (fun v hv => ?_) fun v hv => ?_
      · cases v with
        | hyperLogLog hll => exact HyperLogLog.addAll_ofBytes rt.hashValue values hv
        | _ => exact hv
      · obtain rfl := Option.mem_some_iff.mp hv
        exact HyperLogLog.addAll_ofBytes rt.hashValue values HyperLogLog.default_ofBytes
  · exact nop_plain

end CellOp

/-- The values it puts are plain. -/
def Write.plain : Write → Bool
  | .set _ value | .setWithTtl _ value _ | .getset _ value => value.plain
  | _ => true

theorem Write.cells_plain {w : Write} (hw : w.plain = true) (rt : Runtime) (cfg : StoreConfig) (inTx : Bool)
    (now : Nat) : ∀ c ∈ w.cells rt cfg inTx now, c.2.KeepsPlain := by
  cases w with
  | mset pairs =>
      intro c hc
      obtain ⟨value, -, hop⟩ := CellOp.mem_assignAll hc
      rw [hop]
      exact CellOp.assignIf_plain (v := .str value) rfl ..
  | pfadd key values => exact fun c hc => absurd hc List.not_mem_nil
  | pfmerge destination sources => exact fun c hc => absurd hc List.not_mem_nil
  | set key value => exact List.forall_mem_singleton.mpr (CellOp.assignIf_plain hw ..)
  | setWithTtl key value ttl => exact List.forall_mem_singleton.mpr (CellOp.assignIf_plain hw ..)
  | getset key value => exact List.forall_mem_singleton.mpr (CellOp.assignIf_plain hw ..)
  | delete key =>
      refine List.forall_mem_singleton.mpr ?_
      show CellOp.KeepsPlain (if inTx then .nop else .remove)
      split
      · exact CellOp.nop_plain
      · exact CellOp.remove_plain
  | incr key => exact List.forall_mem_singleton.mpr (CellOp.addInt_plain _)
  | decr key => exact List.forall_mem_singleton.mpr (CellOp.addInt_plain _)
  | incrby key amount => exact List.forall_mem_singleton.mpr (CellOp.addInt_plain _)
  | append key value => exact List.forall_mem_singleton.mpr (CellOp.appendStr_plain ..)
  | expire key ttl => exact List.forall_mem_singleton.mpr (CellOp.retime_plain _)
  | persist key => exact List.forall_mem_singleton.mpr (CellOp.retime_plain _)
  | lpush key values => exact List.forall_mem_singleton.mpr (CellOp.pushList_plain ..)
  | rpush key values => exact List.forall_mem_singleton.mpr (CellOp.pushList_plain ..)
  | lpop key => exact List.forall_mem_singleton.mpr (CellOp.popList_plain _)
  | rpop key => exact List.forall_mem_singleton.mpr (CellOp.popList_plain _)
  | hset key fields => exact List.forall_mem_singleton.mpr (CellOp.setFields_plain ..)
  | hdel key fields => exact List.forall_mem_singleton.mpr (CellOp.deleteFields_plain _)
  | hincrby key field amount => exact List.forall_mem_singleton.mpr (CellOp.addField_plain ..)
  | hincrbyfloat key field amount => exact List.forall_mem_singleton.mpr (CellOp.addField_plain ..)

namespace KvStore

/-- Every value in the store is plain. -/
def Plain (s : KvStore) : Prop := ∀ k, ∀ entry ∈ s.contents k, entry.value.plain = true

theorem run_plain {cells : List (String × CellOp)} : ∀ {m : String → Option ValueWithTTL},
    (∀ c ∈ cells, c.2.KeepsPlain) → (∀ k, ∀ entry ∈ m k, entry.value.plain = true) →
      ∀ k, ∀ entry ∈ Lib.KeyedLog.run (entryUpdates cells) m k, entry.value.plain = true := by
  induction cells with
  | nil => exact fun _ hm => hm
  | cons c cells ih =>
      intro m hcells hm
      refine ih (fun d hd => hcells d (List.mem_cons_of_mem _ hd)) fun k => ?_
      by_cases hk : k = c.1
      · subst hk
        rw [Lib.KeyedLog.apply, Function.update_self]
        exact (hcells c List.mem_cons_self).onEntry (m c.1) (hm c.1)
      · rw [Lib.KeyedLog.apply, Function.update_of_ne hk]
        exact hm k

theorem Plain.of_within {s : KvStore} {m : String → Option ValueWithTTL} (h : Within s.contents m)
    (hm : ∀ k, ∀ entry ∈ m k, entry.value.plain = true) : s.Plain := by
  intro k entry hentry
  rcases h k with heq | hnone
  · exact hm k entry (heq ▸ hentry)
  · rw [hnone] at hentry
    cases hentry

theorem Plain.sketch {s : KvStore} (h : s.Plain) {key : String} {hll : HyperLogLog} {expiresAt : Option Nat}
    (hkey : s.store[key]? = some ⟨.hyperLogLog hll, expiresAt⟩) : hll.ofBytes = true :=
  h key _ hkey

theorem Plain.mergeSources {s : KvStore} (h : s.Plain) (destination : String) (sources : List String) :
    ∀ {start merged : HyperLogLog}, start.ofBytes = true →
      mergeSources s destination sources start = .ok merged → merged.ofBytes = true := by
  induction sources with
  | nil => intro start merged hstart hmerged; cases hmerged; exact hstart
  | cons source sources ih =>
      intro start merged hstart hmerged
      unfold KvStore.mergeSources at hmerged
      split at hmerged
      · exact ih hstart hmerged
      · split at hmerged
        · exact ih hstart hmerged
        · next hll expiresAt hkey =>
            split at hmerged
            · cases hmerged
            · next next hnext =>
                exact ih (HyperLogLog.merge_ofBytes hstart (h.sketch hkey) hnext) hmerged
        · cases hmerged

theorem Plain.mergedSketch {s : KvStore} (h : s.Plain) {destination : String} {sources : List String}
    {merged : HyperLogLog} (hmerged : s.mergedSketch destination sources = .ok merged) :
    merged.ofBytes = true := by
  unfold KvStore.mergedSketch at hmerged
  split at hmerged
  · next hll expiresAt hkey => exact h.mergeSources destination sources (h.sketch hkey) hmerged
  · cases hmerged
  · exact h.mergeSources destination sources HyperLogLog.default_ofBytes hmerged

theorem Plain.write {s : KvStore} (h : s.Plain) (rt : Runtime) (now : Nat) {w : Write}
    (hw : w.plain = true) : (s.write rt now w).2.Plain := by
  by_cases hkeyed : w.Keyed
  · exact Plain.of_within (write_within rt s now hkeyed) (run_plain (Write.cells_plain hw _ _ _ _) h)
  · cases w with
    | pfadd key values =>
        refine Plain.of_within (Within.of_eq (pfadd_moves rt s key values).contents) (run_plain ?_ h)
        exact List.forall_mem_singleton.mpr (CellOp.addValues_plain ..)
    | pfmerge destination sources =>
        show (s.pfmerge destination sources).2.Plain
        rcases pfmerge_cases s destination sources with ⟨e, he⟩ | ⟨merged, hvalid, hsources, hmerged, -⟩
        · rw [he]
          exact h
        · intro k entry hentry
          rw [pfmerge_contents hvalid hsources hmerged] at hentry
          by_cases hk : k = destination
          · rw [hk, Function.update_self] at hentry
            obtain rfl := Option.mem_some_iff.mp hentry
            exact h.mergedSketch hmerged
          · rw [Function.update_of_ne hk] at hentry
            exact h k entry hentry
    | _ => exact absurd trivial hkeyed

theorem Plain.floatless {s : KvStore} (h : s.Plain) (ser : Serializer) : s.Floatless ser := by
  rintro ⟨k, entry⟩ hentry
  exact Value.plain_floatless
    (h k entry (Std.ExtTreeMap.mem_toList_iff_getElem?_eq_some.mp hentry)) ser

theorem Plain.savable {s : KvStore} (h : s.Plain) (ser : Serializer) : s.Savable ser := by
  rintro ⟨k, entry⟩ hentry
  exact Value.plain_savable (h k entry (Std.ExtTreeMap.mem_toList_iff_getElem?_eq_some.mp hentry)) ser 123

end KvStore

end Daikon
