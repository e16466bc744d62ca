-- SUMMARY: Writing schemas as JSON, each named type in full only once.
import Restorable.Json.Writer
import Restorable.Schema.Basic

/-!
# Writing schemas

The writer carries the full names that it has written in full; a named type met again
is written as its full name. Attributes stand in key order.
-/
namespace Restorable
namespace Schema

/-! ## Attributes -/

/-- The attributes of an annotation that come before `name`, `size` and `type`. -/
def refinementAttr (a : Refinement) : List (String × Json) := [("logicalType", .str a.name)]

/-- The attributes of a decimal. -/
def decimalAttrs : Refinement → List (String × Json)
  | .decimal precision scale =>
    [("precision", .ofUInt32 precision), ("scale", .ofUInt32 scale)]
  | _ => []

/-- A primitive type: its word, or an object where it is annotated. -/
def primitiveJson (word : String) : Option Refinement → Json
  | none => .str word
  | some a => .obj (refinementAttr a ++ decimalAttrs a ++ [("type", .str word)])

def fixedJson (n : Name) (size : UInt64) (a : Option Refinement) : Json :=
  .obj ((a.map refinementAttr).getD [] ++ [("name", .str n.full)] ++
    (a.map decimalAttrs).getD [] ++ [("size", .ofUInt64 size), ("type", .str "fixed")])

def enumJson (n : Name) (symbols : List String) : Json :=
  .obj [("name", .str n.full), ("symbols", .ofStrings symbols), ("type", .str "enum")]

def fieldJson (name : String) (type : Json) (default : Option Json) : Json :=
  .obj ((default.map fun v => [("default", v)]).getD [] ++ [("name", .str name), ("type", type)])

def recordJson (n : Name) (doc : Option String) (fields : List Json) : Json :=
  .obj ((doc.map fun d => [("doc", .str d)]).getD [] ++
    [("fields", .arr fields), ("name", .str n.full), ("type", .str "record")])

/-! ## Trees -/

/-- A step of the writer, with the full names written so far. -/
abbrev Write (α : Type) := StateM (List String) α

/-- Write a named type in full the first time and as its full name later. -/
def writeNamed (n : Name) (body : Write Json) : Write Json := do
  if n.full ∈ (← get) then return .str n.full
  else
    modify (n.full :: ·)
    body

mutual

def write : Schema → Write Json
  | .null => return .str "null"
  | .boolean => return .str "boolean"
  | .int a => return primitiveJson "int" a
  | .long a => return primitiveJson "long" a
  | .float => return .str "float"
  | .double => return .str "double"
  | .string a => return primitiveJson "string" a
  | .bytes a => return primitiveJson "bytes" a
  | .fixed n size a => writeNamed n (return fixedJson n size a)
  | .enum n symbols => writeNamed n (return enumJson n symbols)
  | .array items => do return .obj [("items", ← items.write), ("type", .str "array")]
  | .map values => do return .obj [("type", .str "map"), ("values", ← values.write)]
  | .union members => do return .arr (← writeMembers members)
  | .record n doc fields => writeNamed n do return recordJson n doc (← writeFields fields)
  | .ref n => return .str n.full

def writeMembers : List Schema → Write (List Json)
  | [] => return []
  | s :: ss => do return (← s.write) :: (← writeMembers ss)

def writeFields : List (Field Schema) → Write (List Json)
  | [] => return []
  | ⟨name, s, default⟩ :: fs => do
    return fieldJson name (← s.write) default :: (← writeFields fs)

end

/-- The schema as a JSON value. -/
def toJson (s : Schema) : Json := (s.write.run []).1

/-- The schema as compact text. -/
def text (s : Schema) : String := s.toJson.compact

/-- The schema as indented text. -/
def prettyText (s : Schema) : String := s.toJson.pretty

end Schema
end Restorable
