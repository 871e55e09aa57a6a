/-
# Daikon.Store.Fields -- cell operations that overwrite hash fields

`hset` and `hdel` give some fields of a hash a fixed content and leave the others; a cell operation
is `Mild` if it does no more than that, and nothing to a string. Counters, pops and changes of the
expiry are mild, too, on the values they do not apply to.

The instance of `Lib.Overwrite` at the values of a key: the coordinates are the fields, and one more that
says whether there is a hash at all. The point is what can be done twice. A list of mild operations that was
carried out may be carried out again from where it led, with the same result, and that is how a log whose
effects are in the store file already can be replayed on that file (`Daikon.Recovery.Repeat`). A push, an
APPEND or a counter on a value of its type is not mild.
-/
import Daikon.Lib.Lookup
import Daikon.Lib.Overwrite
import Daikon.Store.Write

namespace Daikon

open Lib (Overwrites)

/-! ## The fields of a hash -/

/-- The values that `hset` and `hdel` work on. -/
def hashOrNone : Set (Option Value) := fun v => v = none ∨ ∃ map, v = some (.hash map)

/-- The coordinates: `none` says that there is a hash, `some field` is its field. -/
def hashView : Option Value → Option String → Option String
  | some (.hash map), some field => map[field]?
  | some (.hash _), none => some ""
  | _, _ => none

theorem hashView_injective : ∀ x ∈ hashOrNone, ∀ y ∈ hashOrNone,
    (∀ c, hashView x c = hashView y c) → x = y := by
  rintro x (rfl | ⟨map, rfl⟩) y (rfl | ⟨map', rfl⟩) h
  · rfl
  · cases h none
  · cases h none
  · have hmaps : map = map' := Std.ExtTreeMap.ext_getElem? (fun field => h (some field))
    rw [hmaps]

namespace KvStore

/-- Where a field is among the inserted ones its new value shows, elsewhere the old one. -/
theorem insertFields_getElem? (map fields : Fields) (field : String) :
    (insertFields map fields).1[field]? = fields[field]?.or map[field]? := by
  have hfold : ∀ (l : List (String × String)) (m : Fields) (n : Nat),
      (l.foldl (fun acc p => (acc.1.insert p.1 p.2, if acc.1.contains p.1 then acc.2 else acc.2 + 1))
        (m, n)).1 = m.insertMany l := by
    intro l
    induction l with
    | nil => intro m n; simp
    | cons p l ih =>
        intro m n
        rw [List.foldl_cons, ih, Std.ExtTreeMap.insertMany_cons]
  rw [insertFields, hfold]
  cases hvalue : fields[field]? with
  | some value =>
      rw [Std.ExtTreeMap.getElem?_insertMany_list_of_mem (k := field) (v := value)
        Std.ReflCmp.compare_self Std.ExtTreeMap.distinct_keys_toList
        (Std.ExtTreeMap.mem_toList_iff_getElem?_eq_some.mpr hvalue)]
      rfl
  | none =>
      rw [Std.ExtTreeMap.getElem?_insertMany_list_of_contains_eq_false]
      · rfl
      · rw [Bool.eq_false_iff, ne_eq, List.contains_iff_mem, List.mem_map]
        rintro ⟨⟨f, value⟩, hin, rfl⟩
        rw [Std.ExtTreeMap.mem_toList_iff_getElem?_eq_some.mp hin] at hvalue
        cases hvalue

theorem removeFields_getElem? (map : Fields) (fields : List String) (field : String) :
    (removeFields map fields).1[field]? = if field ∈ fields then none else map[field]? := by
  have hfold : ∀ (l : List String) (m : Fields) (n : Nat),
      (l.foldl (fun acc f => (acc.1.erase f, if acc.1.contains f then acc.2 + 1 else acc.2))
        (m, n)).1[field]? = if field ∈ l then none else m[field]? := by
    intro l
    induction l with
    | nil => intro m n; simp
    | cons f l ih =>
        intro m n
        rw [List.foldl_cons, ih, Lib.Lookup.getElem?_erase]
        by_cases hin : field ∈ l
        · simp [hin]
        · by_cases hf : field = f <;> simp [hin, hf]
  exact hfold fields map 0

theorem insert_eq_self {map : Fields} {field text : String} :
    map.insert field text = map ↔ map[field]? = some text := by
  constructor
  · intro h
    rw [← h, Std.ExtTreeMap.getElem?_insert_self]
  · exact Lib.Lookup.insert_same map

theorem insertFields_eq_self {map fields : Fields} :
    (insertFields map fields).1 = map ↔
      ∀ (f text : String), fields[f]? = some text → map[f]? = some text := by
  constructor
  · intro h f text hf
    rw [← h, insertFields_getElem?, hf]
    rfl
  · intro h
    apply Std.ExtTreeMap.ext_getElem?
    intro f
    rw [insertFields_getElem?]
    cases hf : fields[f]? with
    | none => rfl
    | some text => exact (h f text hf).symm

theorem removeFields_eq_self {map : Fields} {fields : List String} :
    (removeFields map fields).1 = map ↔ ∀ f ∈ fields, map[f]? = none := by
  constructor
  · intro h f hf
    rw [← h, removeFields_getElem?, if_pos hf]
  · intro h
    apply Std.ExtTreeMap.ext_getElem?
    intro f
    rw [removeFields_getElem?]
    split
    · next hf => exact (h f hf).symm
    · rfl

end KvStore

/-! ## Mild operations -/

/-- The value is a string, a hash, or absent. -/
def Plain (v : Option Value) : Prop := (∃ s, v = some (.str s)) ∨ v ∈ hashOrNone

namespace CellOp

/-- The operation leaves strings alone and overwrites fields of hashes. -/
structure Mild (op : CellOp) : Prop where
  str : ∀ s, op.onValue (some (.str s)) = some (.str s)
  fields : ∃ o, Overwrites hashOrNone hashView op.onValue o

/-- An operation without an effect on plain values is mild. -/
theorem mild_of_inert {op : CellOp} (hnone : op.onValue none = none)
    (hstr : ∀ s, op.onValue (some (.str s)) = some (.str s))
    (hhash : ∀ map, op.onValue (some (.hash map)) = some (.hash map)) : op.Mild := by
  have hsame : ∀ x ∈ hashOrNone, op.onValue x = x := by
    rintro x (rfl | ⟨map, rfl⟩)
    · exact hnone
    · exact hhash map
  refine ⟨hstr, fun _ => none, fun x hx => ?_, fun x hx c => ?_⟩
  · rw [hsame x hx]; exact hx
  · rw [hsame x hx]; rfl

theorem nop_mild : nop.Mild := mild_of_inert rfl (fun _ => rfl) fun _ => rfl

theorem retime_mild (g : ValueWithTTL → Option Nat) : (retime g).Mild :=
  mild_of_inert rfl (fun _ => rfl) fun _ => rfl

theorem addInt_mild (amount : Int64) : (addInt amount).Mild :=
  mild_of_inert rfl (fun _ => rfl) fun _ => rfl

theorem popList_mild (pop : List String → Option (String × List String)) : (popList pop).Mild :=
  mild_of_inert rfl (fun _ => rfl) fun _ => rfl

theorem setFields_mild (cfg : StoreConfig) (key : String) (fields : Fields) :
    (setFields cfg key fields).Mild := by
  unfold setFields
  split
  · refine ⟨fun _ => rfl,
      fun c => c.elim (some (some "")) fun field => fields[field]?.map some, ?_, ?_⟩
    · rintro x (rfl | ⟨map, rfl⟩)
      · exact .inr ⟨fields, rfl⟩
      · exact .inr ⟨(KvStore.insertFields map fields).1, rfl⟩
    · rintro x (rfl | ⟨map, rfl⟩) (_ | field)
      · rfl
      · show fields[field]? = (fields[field]?.map some).getD none
        cases fields[field]? <;> rfl
      · rfl
      · show (KvStore.insertFields map fields).1[field]? = (fields[field]?.map some).getD map[field]?
        rw [KvStore.insertFields_getElem?]
        cases fields[field]? <;> rfl
  · exact nop_mild

theorem deleteFields_mild (fields : List String) : (deleteFields fields).Mild := by
  refine ⟨fun _ => rfl,
    fun c => c.elim none fun field => if field ∈ fields then some none else none, ?_, ?_⟩
  · rintro x (rfl | ⟨map, rfl⟩)
    · exact .inl rfl
    · exact .inr ⟨(KvStore.removeFields map fields).1, rfl⟩
  · rintro x (rfl | ⟨map, rfl⟩) (_ | field)
    · rfl
    · show none = (if field ∈ fields then some none else none).getD none
      split <;> rfl
    · rfl
    · show (KvStore.removeFields map fields).1[field]?
        = (if field ∈ fields then some none else none).getD map[field]?
      rw [KvStore.removeFields_getElem?]
      split <;> rfl

theorem Mild.plain {op : CellOp} (h : op.Mild) {v : Option Value} (hv : Plain v) :
    Plain (op.onValue v) := by
  obtain ⟨o, ho⟩ := h.fields
  rcases hv with ⟨s, rfl⟩ | hv
  · exact .inl ⟨s, h.str s⟩
  · exact .inr (ho.closed v hv)

/-- The value after a list of operations on it. -/
def onValues (ops : List CellOp) (v : Option Value) : Option Value :=
  ops.foldl (fun v op => op.onValue v) v

theorem onValues_str {ops : List CellOp} (h : ∀ op ∈ ops, op.Mild) (s : String) :
    onValues ops (some (.str s)) = some (.str s) := by
  induction ops with
  | nil => rfl
  | cons op ops ih =>
      rw [onValues, List.foldl_cons, (h op (by simp)).str]
      exact ih fun op' hop => h op' (List.mem_cons_of_mem _ hop)

/-- Mild operations that leave a value alone still do when one more has acted. -/
theorem Mild.settled {op : CellOp} (h : op.Mild) {ops : List CellOp} (hops : ∀ op ∈ ops, op.Mild)
    {v : Option Value} (hv : Plain v) (hsettled : onValues ops v = v) :
    onValues (ops ++ [op]) (op.onValue v) = op.onValue v := by
  have hconcat : ∀ x, onValues (ops ++ [op]) x = op.onValue (onValues ops x) := fun x => by
    simp [onValues]
  rw [hconcat]
  rcases hv with ⟨s, rfl⟩ | hv
  · rw [h.str, onValues_str hops, h.str]
  · obtain ⟨o, ho⟩ := h.fields
    obtain ⟨p, hp⟩ := Overwrites.foldl (D := hashOrNone) (ops.map onValue) (by
      intro f hf
      obtain ⟨op', hop', rfl⟩ := List.mem_map.mp hf
      exact (hops op' hop').fields)
    have hrun : (fun x => (ops.map onValue).foldl (fun x f => f x) x) = onValues ops := by
      funext x
      rw [onValues, List.foldl_map]
    rw [hrun] at hp
    exact ho.settled hashView_injective hp hv hsettled

end CellOp

end Daikon
