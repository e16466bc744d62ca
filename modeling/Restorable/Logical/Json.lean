-- SUMMARY: Logical types as JSON values: writing them, and reading them with their rules checked.
import Restorable.Json.Reader
import Restorable.Json.Writer
import Restorable.Logical.Basic

/-!
# Logical types as JSON

A type is an object with its flag, its kind and the attributes of the kind. Reading
goes through the rules of logical types, so what is read is valid. The first fault in
document order is reported; attributes that a kind does not have are ignored.
-/
namespace Restorable

/-- Why a typed value cannot be read from JSON: its shape is wrong, or it breaks a rule
of logical types. -/
inductive DecodeFault
  | malformed
  | invalid (fault : TypeFault)
  deriving DecidableEq, Repr

/-! ## Writing -/

def IntWidth.word : IntWidth → String
  | .tiny => "tiny"
  | .small => "small"
  | .int => "int"
  | .big => "big"

/-- The word for a kind. -/
def Scalar.word : Scalar → String
  | .null => "null"
  | .boolean => "boolean"
  | .integer _ => "integer"
  | .float => "float"
  | .double => "double"
  | .string => "string"
  | .binary _ => "binary"
  | .decimal .. => "decimal"
  | .date => "date"
  | .time _ => "time"
  | .timestamp .. => "timestamp"
  | .raw _ => "raw"

/-- The attributes of a kind. -/
def Scalar.attrs : Scalar → List (String × Json)
  | .integer width => [("width", .str width.word)]
  | .binary (some length) => [("length", .ofUInt64 length)]
  | .decimal precision scale => [("precision", .ofUInt32 precision), ("scale", .ofUInt32 scale)]
  | .time precision => [("precision", .ofUInt32 precision)]
  | .timestamp precision zoned => [("precision", .ofUInt32 precision), ("zoned", .bool zoned)]
  | .raw typeName => [("type_name", .str typeName)]
  | _ => []

namespace LogicalType

/-- The flag and the kind, before the attributes of the kind. -/
def typeJson (nullable : Bool) (kind : String) (attrs : List (String × Json)) : Json :=
  .obj (("nullable", .bool nullable) :: ("kind", .str kind) :: attrs)

mutual

def toJson : LogicalType → Json
  | .scalar n k => typeJson n k.word k.attrs
  | .array n e => typeJson n "array" [("element", e.toJson)]
  | .map n k v => typeJson n "map" [("key", k.toJson), ("value", v.toJson)]
  | .multiset n e => typeJson n "multiset" [("element", e.toJson)]
  | .row n fs => typeJson n "row" [("fields", .arr (fieldsToJson fs))]

def fieldsToJson : List (RowField LogicalType) → List Json
  | [] => []
  | ⟨name, t⟩ :: fs => .obj [("name", .str name), ("type", t.toJson)] :: fieldsToJson fs

end

/-! ## Reading attributes -/

/-- The kinds in their order; a kind may also be given by its place. -/
def kindWords : List String :=
  ["null", "boolean", "integer", "float", "double", "string", "binary", "decimal", "date", "time",
    "timestamp", "array", "map", "multiset", "row", "raw"]

/-- The kind that a value names. -/
def kind? (v : Json) : Option String :=
  match v with
  | .str word => if word ∈ kindWords then some word else none
  | .num (.int n) => if 0 ≤ n.val then kindWords[n.val.toNat]? else none
  | _ => none

/-- A word, which may also be the key of an object whose only value is empty. -/
def variantWord? : Json → Option String
  | .str word => some word
  | .obj [(word, .null)] => some word
  | .obj [(word, .obj [])] => some word
  | _ => none

def width? (v : Json) : Option IntWidth :=
  match variantWord? v with
  | some "tiny" => some .tiny
  | some "small" => some .small
  | some "int" => some .int
  | some "big" => some .big
  | _ => none

/-- An optional length: absent and null both mean none. -/
def length? (attrs : List (String × Json)) : Option (Option UInt64) :=
  match Json.find? "length" attrs with
  | none | some .null => some none
  | some v => v.uint64?.map some

/-- A scalar kind with its attributes, without its rules. -/
def scalar? (word : String) (attrs : List (String × Json)) : Option Scalar :=
  match word with
  | "null" => some .null
  | "boolean" => some .boolean
  | "integer" => do some (.integer (← width? (← Json.find? "width" attrs)))
  | "float" => some .float
  | "double" => some .double
  | "string" => some .string
  | "binary" => do some (.binary (← length? attrs))
  | "decimal" => do
    let precision ← (← Json.find? "precision" attrs).uint32?
    let scale ← (← Json.find? "scale" attrs).uint32?
    some (.decimal precision scale)
  | "date" => some .date
  | "time" => do some (.time (← (← Json.find? "precision" attrs).uint32?))
  | "timestamp" => do
    let precision ← (← Json.find? "precision" attrs).uint32?
    let zoned ← (← Json.find? "zoned" attrs).bool?
    some (.timestamp precision zoned)
  | "raw" => do some (.raw (← (← Json.find? "type_name" attrs).str?))
  | _ => none

/-- The rules of a scalar kind. -/
def checkScalar : Scalar → Except TypeFault Unit
  | .decimal precision scale => checkDecimal precision scale
  | _ => .ok ()

/-! ## Reading types -/

/-- A value that has to be there. -/
def required {α : Type} : Option α → Except DecodeFault α
  | some x => .ok x
  | none => .error .malformed

/-- A rule that has to hold. -/
def lawful {α : Type} : Except TypeFault α → Except DecodeFault α
  | .ok x => .ok x
  | .error fault => .error (.invalid fault)

mutual

/-- The type that a value describes. -/
def read : Json → Except DecodeFault LogicalType
  | .obj attrs => do
    let nullable ← required ((Json.find? "nullable" attrs).bind Json.bool?)
    let word ← required ((Json.find? "kind" attrs).bind kind?)
    match word with
    | "array" =>
      let parts ← readParts ["element"] attrs
      let element ← required (parts.lookup "element")
      return (LogicalType.array false element).withNullability nullable
    | "map" =>
      let parts ← readParts ["key", "value"] attrs
      let key ← required (parts.lookup "key")
      let value ← required (parts.lookup "value")
      return (LogicalType.map false key value).withNullability nullable
    | "multiset" =>
      let parts ← readParts ["element"] attrs
      let element ← required (parts.lookup "element")
      return (LogicalType.multiset false element).withNullability nullable
    | "row" =>
      let fields ← readFieldsAttr attrs
      return (← lawful (row? fields)).withNullability nullable
    | word =>
      let kind ← required (scalar? word attrs)
      lawful (checkScalar kind)
      return (LogicalType.scalar false kind).withNullability nullable
  | _ => .error .malformed

/-- The attributes with the given keys as types, in document order. -/
def readParts (keys : List String) :
    List (String × Json) → Except DecodeFault (List (String × LogicalType))
  | [] => .ok []
  | (k, v) :: attrs =>
    if k ∈ keys then do
      let t ← read v
      return (k, t) :: (← readParts keys attrs)
    else readParts keys attrs

/-- The `fields` attribute. -/
def readFieldsAttr : List (String × Json) → Except DecodeFault (List (RowField LogicalType))
  | [] => .error .malformed
  | (k, v) :: attrs =>
    if k = "fields" then
      match v with
      | .arr fields => readFields fields
      | _ => .error .malformed
    else readFieldsAttr attrs

def readFields : List Json → Except DecodeFault (List (RowField LogicalType))
  | [] => .ok []
  | v :: fields => do
    let field ← readField v
    return field :: (← readFields fields)

/-- A field as an object, or as the array of its name and its type. A fault in the type
comes before anything behind it. -/
def readField : Json → Except DecodeFault (RowField LogicalType)
  | .obj attrs => do
    let (name, type) ← readFieldParts attrs
    return ⟨← required name, ← required type⟩
  | .arr (.str name :: type :: rest) => do
    let type ← read type
    if rest.isEmpty then return ⟨name, type⟩ else .error .malformed
  | _ => .error .malformed

/-- The name and the type of a field, in document order. -/
def readFieldParts :
    List (String × Json) → Except DecodeFault (Option String × Option LogicalType)
  | [] => .ok (none, none)
  | (k, v) :: attrs =>
    if k = "name" then do
      let name ← required v.str?
      let (_, type) ← readFieldParts attrs
      return (some name, type)
    else if k = "type" then do
      let t ← read v
      let (name, _) ← readFieldParts attrs
      return (name, some t)
    else readFieldParts attrs

end

/-- The type that a whole text describes. A fault inside the first value of the text
comes before anything behind it. -/
def ofText? (text : String) : Except DecodeFault LogicalType := do
  let (v, rest) ← required (Json.leading? text)
  let t ← read v
  if Json.atEnd rest then return t else .error .malformed

end LogicalType
end Restorable
