-- SUMMARY: The names of kinds and the text of logical types.
import Restorable.Logical.Basic

/-!
# Texts of logical types

A type is written as its kind, with parameters in parentheses and parts in angle
brackets, and with `NOT NULL` behind it unless values may be absent.
-/
namespace Restorable

/-- The name of a kind, without its parameters. -/
def Scalar.category : Scalar → String
  | .null => "NULL"
  | .boolean => "BOOLEAN"
  | .integer .tiny => "TINYINT"
  | .integer .small => "SMALLINT"
  | .integer .int => "INTEGER"
  | .integer .big => "BIGINT"
  | .float => "FLOAT"
  | .double => "DOUBLE"
  | .string => "STRING"
  | .binary (some _) => "BINARY"
  | .binary none => "BYTES"
  | .decimal .. => "DECIMAL"
  | .date => "DATE"
  | .time _ => "TIME"
  | .timestamp _ false => "TIMESTAMP"
  | .timestamp _ true => "TIMESTAMP_LTZ"
  | .raw _ => "RAW"

/-- A kind with its parameters. -/
def Scalar.text (k : Scalar) : String :=
  match k with
  | .binary (some length) => s!"BINARY({length})"
  | .decimal precision scale => s!"DECIMAL({precision}, {scale})"
  | .time precision => s!"TIME({precision})"
  | .timestamp precision zoned => s!"{(Scalar.timestamp precision zoned).category}({precision})"
  | .raw typeName => s!"RAW('{typeName}')"
  | k => k.category

namespace LogicalType

/-- The name of the kind of a type. -/
def category : LogicalType → String
  | .scalar _ k => k.category
  | .array .. => "ARRAY"
  | .map .. => "MAP"
  | .multiset .. => "MULTISET"
  | .row .. => "ROW"

/-- What stands behind a type that excludes absent values. -/
def nullText (nullable : Bool) : String := if nullable then "" else " NOT NULL"

mutual

def text : LogicalType → String
  | .scalar n k => k.text ++ nullText n
  | .array n e => "ARRAY<" ++ e.text ++ ">" ++ nullText n
  | .map n k v => "MAP<" ++ k.text ++ ", " ++ v.text ++ ">" ++ nullText n
  | .multiset n e => "MULTISET<" ++ e.text ++ ">" ++ nullText n
  | .row n fs => "ROW<" ++ fieldsText fs ++ ">" ++ nullText n

/-- Each field as its name in backquotes and its type, separated by commas. -/
def fieldsText : List (RowField LogicalType) → String
  | [] => ""
  | [⟨name, t⟩] => "\x60" ++ name ++ "\x60 " ++ t.text
  | ⟨name, t⟩ :: fs => "\x60" ++ name ++ "\x60 " ++ t.text ++ ", " ++ fieldsText fs

end

end LogicalType
end Restorable
