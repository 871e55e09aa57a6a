/-
# Daikon.Store.Json -- JSON documents

The documents the code writes and answers with. Two properties decide whether a document that was
written can be read again: how deep its arrays and objects are nested (`depth`), and whether it holds
a number that JSON has no text for, which is written as `null` (`written`).

Numbers are of two kinds, as in `serde_json`: integers that fit 64 bits, with or without a sign, and floats.
The order of the fields of an object is kept, and a name may come twice, since a text may have that; what a
reader makes of it is said by the reader. A document is what a text says and not the text, so white space
and the choice of escapes are not in it.
-/
import Mathlib.Data.List.Basic

namespace Daikon

/-- A JSON document. -/
inductive Json where
  | null
  | bool (b : Bool)
  /-- A number of `i64` or `u64`. A larger one is a float to `serde_json`. -/
  | int (i : Int)
  | float (x : Float)
  | str (s : String)
  | arr (items : List Json)
  | obj (fields : List (String × Json))

namespace Json

mutual

/-- How many arrays and objects are open at the deepest place of a document. -/
def depth : Json → Nat
  | arr items => depthItems items + 1
  | obj fields => depthFields fields + 1
  | null | bool _ | int _ | float _ | str _ => 0

/-- The depth of the deepest element. -/
def depthItems : List Json → Nat
  | [] => 0
  | j :: rest => max j.depth (depthItems rest)

/-- The depth of the deepest field. -/
def depthFields : List (String × Json) → Nat
  | [] => 0
  | (_, j) :: rest => max j.depth (depthFields rest)

end

mutual

/-- The document that the written text says: a float that is not finite is written as `null`. -/
def written : Json → Json
  | float x => if x.isFinite then float x else null
  | arr items => arr (writtenItems items)
  | obj fields => obj (writtenFields fields)
  | null => null
  | bool b => bool b
  | int i => int i
  | str s => str s

/-- The elements as they are written. -/
def writtenItems : List Json → List Json
  | [] => []
  | j :: rest => j.written :: writtenItems rest

/-- The fields as they are written; names are texts and stay. -/
def writtenFields : List (String × Json) → List (String × Json)
  | [] => []
  | (name, j) :: rest => (name, j.written) :: writtenFields rest

end

mutual

/-- There is no float in the document. -/
def floatless : Json → Bool
  | float _ => false
  | arr items => floatlessItems items
  | obj fields => floatlessFields fields
  | null | bool _ | int _ | str _ => true

/-- The same of the items of an array. -/
def floatlessItems : List Json → Bool
  | [] => true
  | j :: rest => j.floatless && floatlessItems rest

/-- The same of the fields of an object. -/
def floatlessFields : List (String × Json) → Bool
  | [] => true
  | (_, j) :: rest => j.floatless && floatlessFields rest

end

theorem floatlessItems_eq_all : ∀ items : List Json, floatlessItems items = items.all floatless
  | [] => rfl
  | j :: rest => by rw [floatlessItems, floatlessItems_eq_all rest, List.all_cons]

theorem floatlessFields_eq_all : ∀ fields : List (String × Json),
    floatlessFields fields = fields.all fun p => p.2.floatless
  | [] => rfl
  | (name, j) :: rest => by rw [floatlessFields, floatlessFields_eq_all rest, List.all_cons]

@[simp] theorem floatless_obj (fields : List (String × Json)) :
    (obj fields).floatless = fields.all fun p => p.2.floatless := by
  rw [floatless, floatlessFields_eq_all]

@[simp] theorem floatless_arr (items : List Json) : (arr items).floatless = items.all floatless := by
  rw [floatless, floatlessItems_eq_all]

@[simp] theorem floatless_null : null.floatless = true := rfl

@[simp] theorem floatless_bool (b : Bool) : (bool b).floatless = true := rfl

@[simp] theorem floatless_int (i : Int) : (int i).floatless = true := rfl

@[simp] theorem floatless_str (s : String) : (str s).floatless = true := rfl

@[simp] theorem floatless_float (x : Float) : (float x).floatless = false := rfl

theorem writtenItems_eq_map : ∀ items : List Json, writtenItems items = items.map written
  | [] => rfl
  | j :: rest => by simp [writtenItems, writtenItems_eq_map rest]

theorem writtenFields_eq_map : ∀ fields : List (String × Json),
    writtenFields fields = fields.map fun p => (p.1, p.2.written)
  | [] => rfl
  | (name, j) :: rest => by simp [writtenFields, writtenFields_eq_map rest]

@[simp] theorem written_obj (fields : List (String × Json)) :
    (obj fields).written = obj (fields.map fun p => (p.1, p.2.written)) := by
  rw [written, writtenFields_eq_map]

@[simp] theorem written_arr (items : List Json) :
    (arr items).written = arr (items.map written) := by
  rw [written, writtenItems_eq_map]

@[simp] theorem written_null : null.written = null := rfl

@[simp] theorem written_bool (b : Bool) : (bool b).written = bool b := rfl

@[simp] theorem written_int (i : Int) : (int i).written = int i := rfl

@[simp] theorem written_str (s : String) : (str s).written = str s := rfl

theorem written_float (x : Float) :
    (float x).written = if x.isFinite then float x else null := rfl

/-! ## Depth under a bound -/

theorem depthItems_le_iff {n : Nat} : ∀ {items : List Json},
    depthItems items ≤ n ↔ ∀ j ∈ items, j.depth ≤ n
  | [] => by simp [depthItems]
  | j :: rest => by
    rw [depthItems, Nat.max_le, depthItems_le_iff, List.forall_mem_cons]

theorem depthFields_le_iff {n : Nat} : ∀ {fields : List (String × Json)},
    depthFields fields ≤ n ↔ ∀ p ∈ fields, p.2.depth ≤ n
  | [] => by simp [depthFields]
  | (name, j) :: rest => by
    rw [depthFields, Nat.max_le, depthFields_le_iff, List.forall_mem_cons]

theorem depth_arr_le_iff {items : List Json} {n : Nat} :
    (arr items).depth ≤ n + 1 ↔ ∀ j ∈ items, j.depth ≤ n := by
  rw [depth, Nat.add_le_add_iff_right, depthItems_le_iff]

theorem depth_obj_le_iff {fields : List (String × Json)} {n : Nat} :
    (obj fields).depth ≤ n + 1 ↔ ∀ p ∈ fields, p.2.depth ≤ n := by
  rw [depth, Nat.add_le_add_iff_right, depthFields_le_iff]

@[simp] theorem depth_null : null.depth = 0 := rfl

@[simp] theorem depth_bool (b : Bool) : (bool b).depth = 0 := rfl

@[simp] theorem depth_int (i : Int) : (int i).depth = 0 := rfl

@[simp] theorem depth_float (x : Float) : (float x).depth = 0 := rfl

@[simp] theorem depth_str (s : String) : (str s).depth = 0 := rfl

end Json

end Daikon
