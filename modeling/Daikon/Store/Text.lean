/-
# Daikon.Store.Text -- a runtime to evaluate the model with

The `serde_json` text of a string value, written and read as the library does it, in a runtime that
refuses every other value. The model takes any runtime; this one makes closed examples of it.

`StrRoundTrip` is what results about logs assume of `serde_json`: a string value has a text, and the text is
read as that value. It is proved of `Runtime.strings`, which follows the escapes of the library character by
character (`Lib.JsonString`). Examples and witnesses are run with this runtime; the results themselves are
about any.
-/
import Daikon.Lib.JsonString
import Daikon.Store.Value

namespace Daikon

/-- What stands before and after the characters of a string value. -/
def strPrefix : List Char := "\x7b\"Str\":\"".toList

/-- The text behind the string. -/
def strSuffix : List Char := "\x7d".toList

/-- `serde_json::to_string(&Value::Str(s))`. -/
def strToJson (s : String) : String :=
  String.ofList (strPrefix ++ Lib.JsonString.write s.toList ++ Lib.JsonString.quote :: strSuffix)

/-- `serde_json::from_str` on the text of a string value without white space. -/
def strFromJson (text : String) : Option Value :=
  if strPrefix.isPrefixOf text.toList then
    match Lib.JsonString.read (text.toList.drop strPrefix.length) with
    | some (s, rest) => if rest = strSuffix then some (.str (String.ofList s)) else none
    | none => none
  else none

theorem strFromJson_strToJson (s : String) : strFromJson (strToJson s) = some (.str s) := by
  unfold strFromJson strToJson
  rw [String.toList_ofList, List.append_assoc, List.drop_left, Lib.JsonString.read_write]
  have hprefix : strPrefix.isPrefixOf
      (strPrefix ++ (Lib.JsonString.write s.toList ++ Lib.JsonString.quote :: strSuffix)) = true := by
    rw [List.isPrefixOf_iff_prefix]
    exact List.prefix_append _ _
  rw [if_pos hprefix]
  simp

/-- A runtime that knows the text of string values only. -/
def Runtime.strings : Runtime where
  hashValue := fun _ => 0
  f64ToString := fun _ => "0"
  f64Parse := fun _ => none
  valueToJson
    | .str s => .ok (strToJson s)
    | v => .error ("unsupported value: " ++ v.typeName)
  valueFromJson := strFromJson

/-- A string value has a text, and that text decodes to it. -/
def Runtime.StrRoundTrip (rt : Runtime) : Prop :=
  ∀ s, ∃ json, rt.valueToJson (.str s) = .ok json ∧ rt.valueFromJson json = some (.str s)

theorem Runtime.StrRoundTrip.decode {rt : Runtime} (h : rt.StrRoundTrip) {s json : String}
    (hjson : rt.valueToJson (.str s) = .ok json) : rt.valueFromJson json = some (.str s) := by
  obtain ⟨json', hjson', hdecode⟩ := h s
  rw [hjson] at hjson'
  cases hjson'
  exact hdecode

theorem Runtime.strings_valueToJson (s : String) :
    Runtime.strings.valueToJson (.str s) = .ok (strToJson s) := rfl

theorem Runtime.strings_valueFromJson : Runtime.strings.valueFromJson = strFromJson := rfl

theorem Runtime.strings_strRoundTrip : Runtime.strings.StrRoundTrip := by
  intro s
  refine ⟨strToJson s, Runtime.strings_valueToJson s, ?_⟩
  rw [Runtime.strings_valueFromJson]
  exact strFromJson_strToJson s

end Daikon
