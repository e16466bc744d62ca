-- SUMMARY: Schema documents as trees: annotations, named types, unions and records.
import Restorable.Json.Basic
import Restorable.Schema.Name

/-!
# Schemas

A schema is a tree without a symbol table: a reference to a completed type is the
type itself, and only a reference to a record around it remains one.
-/
namespace Restorable

/-! ## Annotations -/

/-- A logical annotation that refines a physical type. -/
inductive Refinement
  | decimal (precision scale : UInt32)
  | date
  | timeMillis
  | timeMicros
  | timestampMillis
  | timestampMicros
  | localTimestampMillis
  | localTimestampMicros
  | uuid
  deriving DecidableEq, Repr

/-- The value of the `logicalType` attribute. -/
def Refinement.name : Refinement → String
  | .decimal .. => "decimal"
  | .date => "date"
  | .timeMillis => "time-millis"
  | .timeMicros => "time-micros"
  | .timestampMillis => "timestamp-millis"
  | .timestampMicros => "timestamp-micros"
  | .localTimestampMillis => "local-timestamp-millis"
  | .localTimestampMicros => "local-timestamp-micros"
  | .uuid => "uuid"

/-- The physical types that can carry an annotation. -/
inductive Physical
  | int
  | long
  | string
  | bytes
  | fixed
  deriving DecidableEq, Repr

/-- Whether an annotation may refine a physical type. -/
def Refinement.appliesTo : Refinement → Physical → Bool
  | .decimal .., .bytes | .decimal .., .fixed => true
  | .date, .int | .timeMillis, .int => true
  | .timeMicros, .long | .timestampMillis, .long | .timestampMicros, .long
  | .localTimestampMillis, .long | .localTimestampMicros, .long => true
  | .uuid, .string => true
  | _, _ => false

/-- The annotation where it may refine the type, none where it may not. -/
def Refinement.on (a : Option Refinement) (p : Physical) : Option Refinement :=
  a.filter (·.appliesTo p)

/-! ## Trees -/

/-- A field of a record, around its schema. -/
structure Field (σ : Type) where
  name : String
  schema : σ
  default : Option Json

/-- A schema. The size of a fixed type is in bytes. -/
inductive Schema
  | null
  | boolean
  | int (refinement : Option Refinement)
  | long (refinement : Option Refinement)
  | float
  | double
  | string (refinement : Option Refinement)
  | bytes (refinement : Option Refinement)
  | fixed (name : Name) (size : UInt64) (refinement : Option Refinement)
  | enum (name : Name) (symbols : List String)
  | array (items : Schema)
  | map (values : Schema)
  | union (members : List Schema)
  | record (name : Name) (doc : Option String) (fields : List (Field Schema))
  | ref (name : Name)

namespace Schema

instance : Inhabited Schema := ⟨.null⟩

/-- The word for the physical type. -/
def typeName : Schema → String
  | .null => "null"
  | .boolean => "boolean"
  | .int _ => "int"
  | .long _ => "long"
  | .float => "float"
  | .double => "double"
  | .string _ => "string"
  | .bytes _ => "bytes"
  | .fixed .. => "fixed"
  | .enum .. => "enum"
  | .array _ => "array"
  | .map _ => "map"
  | .union _ => "union"
  | .record .. => "record"
  | .ref _ => "ref"

def isNull : Schema → Bool
  | .null => true
  | _ => false

/-- The name of a named type or of a reference. -/
def name? : Schema → Option Name
  | .fixed n _ _ | .enum n _ | .record n _ _ | .ref n => some n
  | _ => none

/-! ## Equality -/

def sameDefault : Option Json → Option Json → Bool
  | none, none => true
  | some v, some w => v.same w
  | _, _ => false

mutual

/-- Equality of trees; defaults compare as JSON values. -/
def same : Schema → Schema → Bool
  | .null, .null | .boolean, .boolean | .float, .float | .double, .double => true
  | .int a, .int b | .long a, .long b | .string a, .string b | .bytes a, .bytes b => a = b
  | .fixed n s a, .fixed m t b => n = m && s = t && a = b
  | .enum n ss, .enum m ts => n = m && ss = ts
  | .array s, .array t | .map s, .map t => s.same t
  | .union ss, .union ts => sameMembers ss ts
  | .record n d fs, .record m e gs => n = m && d = e && sameFields fs gs
  | .ref n, .ref m => n = m
  | _, _ => false

def sameMembers : List Schema → List Schema → Bool
  | [], [] => true
  | s :: ss, t :: ts => s.same t && sameMembers ss ts
  | _, _ => false

def sameFields : List (Field Schema) → List (Field Schema) → Bool
  | [], [] => true
  | ⟨n, s, d⟩ :: fs, ⟨m, t, e⟩ :: gs =>
    n = m && s.same t && sameDefault d e && sameFields fs gs
  | _, _ => false

end

end Schema
end Restorable
