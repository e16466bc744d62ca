-- SUMMARY: Runtime type descriptors, the descriptor of a logical type, and their JSON form.
import Restorable.Json.Basic
import Restorable.Logical.Basic
import Restorable.Runtime.Leaf

/-!
# Descriptors

A descriptor names the runtime representation of the values of a logical type. A
multiset is held as a map from elements to counts, and null needs no nullability.
-/
namespace Restorable

/-- A runtime representation. -/
inductive Descriptor
  | leaf (leaf : Leaf)
  | array (element : Descriptor)
  | map (key value : Descriptor)
  | row (fields : List (String × Descriptor))
  | nullable (inner : Descriptor)

/-- The representation of a scalar kind. -/
def Scalar.leaf : Scalar → Leaf
  | .null => .void
  | .boolean => .boolean
  | .integer .tiny => .byte
  | .integer .small => .short
  | .integer .int => .int
  | .integer .big => .long
  | .float => .float
  | .double => .double
  | .string => .string
  | .binary length => .bytes length
  | .decimal precision scale => .decimal precision scale
  | .date => .date
  | .time precision => .time precision
  | .timestamp precision zoned => .timestamp precision zoned
  | .raw typeName => .generic typeName

namespace Descriptor

instance : Inhabited Descriptor := ⟨.leaf .void⟩

/-- Admit absent values where `nullable` is set. -/
def orAbsent (nullable : Bool) (d : Descriptor) : Descriptor := if nullable then .nullable d else d

mutual

/-- The representation of a logical type. -/
def ofLogical : LogicalType → Descriptor
  | .scalar _ .null => .leaf .void
  | .scalar n k => (leaf k.leaf).orAbsent n
  | .array n e => (array (ofLogical e)).orAbsent n
  | .map n k v => (map (ofLogical k) (ofLogical v)).orAbsent n
  | .multiset n e => (map (ofLogical e) (.leaf .int)).orAbsent n
  | .row n fs => (row (ofFields fs)).orAbsent n

def ofFields : List (RowField LogicalType) → List (String × Descriptor)
  | [] => []
  | ⟨name, t⟩ :: fs => (name, ofLogical t) :: ofFields fs

end

/-! ## Writing -/

/-- An optional length, written as null where there is none. -/
def lengthJson : Option UInt64 → Json
  | some n => .ofUInt64 n
  | none => .null

/-- The word for a leaf, with its attributes. -/
def leafJson : Leaf → String × List (String × Json)
  | .void => ("void", [])
  | .boolean => ("boolean", [])
  | .byte => ("byte", [])
  | .short => ("short", [])
  | .int => ("int", [])
  | .long => ("long", [])
  | .float => ("float", [])
  | .double => ("double", [])
  | .string => ("string", [])
  | .bytes length => ("primitive_bytes", [("length", lengthJson length)])
  | .decimal precision scale =>
    ("big_decimal", [("precision", .ofUInt32 precision), ("scale", .ofUInt32 scale)])
  | .date => ("sql_date", [])
  | .time precision => ("sql_time", [("precision", .ofUInt32 precision)])
  | .timestamp precision false => ("sql_timestamp", [("precision", .ofUInt32 precision)])
  | .timestamp precision true => ("instant", [("precision", .ofUInt32 precision)])
  | .generic typeName => ("generic", [("type_name", .str typeName)])

def tagged (word : String) (attrs : List (String × Json)) : Json :=
  .obj (("descriptor", .str word) :: attrs)

mutual

def toJson : Descriptor → Json
  | .leaf l => tagged (leafJson l).1 (leafJson l).2
  | .array e => tagged "object_array" [("element", e.toJson)]
  | .map k v => tagged "map" [("key", k.toJson), ("value", v.toJson)]
  | .row fs => tagged "row" [("fields", .arr (fieldsToJson fs))]
  | .nullable d => tagged "nullable" [("inner", d.toJson)]

def fieldsToJson : List (String × Descriptor) → List Json
  | [] => []
  | (name, d) :: fs => .arr [.str name, d.toJson] :: fieldsToJson fs

end

/-! ## Reading -/

/-- An optional length: absent and null both mean none. -/
def length? : Option Json → Option (Option UInt64)
  | none | some .null => some none
  | some v => v.uint64?.map some

/-- A leaf by its word and the values of its attributes. -/
def leaf? (word : String) (attr : String → Option Json) : Option Leaf :=
  match word with
  | "void" => some .void
  | "boolean" => some .boolean
  | "byte" => some .byte
  | "short" => some .short
  | "int" => some .int
  | "long" => some .long
  | "float" => some .float
  | "double" => some .double
  | "string" => some .string
  | "primitive_bytes" => do some (.bytes (← length? (attr "length")))
  | "big_decimal" => do
    some (.decimal (← (← attr "precision").uint32?) (← (← attr "scale").uint32?))
  | "sql_date" => some .date
  | "sql_time" => do some (.time (← (← attr "precision").uint32?))
  | "sql_timestamp" => do some (.timestamp (← (← attr "precision").uint32?) false)
  | "instant" => do some (.timestamp (← (← attr "precision").uint32?) true)
  | "generic" => do some (.generic (← (← attr "type_name").str?))
  | _ => none

/-- A leaf by its word and the values of its attributes in order, all of them. -/
def positionalLeaf? (word : String) (values : List Json) : Option Leaf :=
  match word, values with
  | "primitive_bytes", [v] | "sql_time", [v] | "sql_timestamp", [v] | "instant", [v]
  | "generic", [v] => leaf? word fun _ => some v
  | "big_decimal", [p, s] => leaf? word fun key => if key = "precision" then some p else some s
  | "primitive_bytes", _ => none
  | word, [] => leaf? word fun _ => none
  | _, _ => none

/-- The words in their order. -/
def words : List String :=
  ["void", "boolean", "byte", "short", "int", "long", "float", "double", "string",
    "primitive_bytes", "big_decimal", "sql_date", "sql_time", "sql_timestamp", "instant",
    "object_array", "map", "row", "nullable", "generic"]

/-- The word that a value names. Inside another descriptor it may also be given by its
place. -/
def word? (inside : Bool) (v : Json) : Option String :=
  match v with
  | .str word => some word
  | .num (.int n) => if inside ∧ 0 ≤ n.val then words[n.val.toNat]? else none
  | _ => none

mutual

/-- The descriptor that a value describes, on its own or inside another one: an object
with the word and the attributes, or an array with the word in front and the attributes
in order. -/
def read? (inside : Bool) : Json → Option Descriptor
  | .obj attrs =>
    match (Json.find? "descriptor" attrs).bind (word? inside) with
    | some "object_array" => do return .array (← readAttr? "element" attrs)
    | some "map" => do return .map (← readAttr? "key" attrs) (← readAttr? "value" attrs)
    | some "row" => do return .row (← readFieldsAttr? attrs)
    | some "nullable" => do return .nullable (← readAttr? "inner" attrs)
    | some word => do return .leaf (← leaf? word fun key => Json.find? key attrs)
    | none => none
  | .arr (tag :: values) =>
    match word? inside tag, values with
    | some "object_array", [e] => do return .array (← read? true e)
    | some "map", [k, v] => do return .map (← read? true k) (← read? true v)
    | some "row", [.arr fs] => do return .row (← readFields? fs)
    | some "nullable", [d] => do return .nullable (← read? true d)
    | some word, values => do return .leaf (← positionalLeaf? word values)
    | none, _ => none
  | _ => none

def readAttr? (key : String) : List (String × Json) → Option Descriptor
  | [] => none
  | (k, v) :: attrs => if k = key then read? true v else readAttr? key attrs

def readFieldsAttr? : List (String × Json) → Option (List (String × Descriptor))
  | [] => none
  | (k, v) :: attrs =>
    if k = "fields" then
      match v with
      | .arr fs => readFields? fs
      | _ => none
    else readFieldsAttr? attrs

/-- Each field as the array of its name and its descriptor. -/
def readFields? : List Json → Option (List (String × Descriptor))
  | [] => some []
  | .arr [.str name, d] :: fs => do
    let d ← read? true d
    return (name, d) :: (← readFields? fs)
  | _ :: _ => none

end

/-- The descriptor that a value describes on its own. -/
def ofJson? (v : Json) : Option Descriptor := read? false v

end Descriptor
end Restorable
