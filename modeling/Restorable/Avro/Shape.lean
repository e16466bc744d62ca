-- SUMMARY: Schemas as the strict reading sees them: plain kinds, logical kinds and named shapes.
import Restorable.Schema.Basic

/-!
# Shapes

The strict reading of schema documents keeps what it needs to check defaults: one
plain kind for every type without parts, logical types included, and named shapes.
-/
namespace Restorable
namespace Avro

/-- What tells the members of a union apart. -/
inductive Kind
  | null
  | boolean
  | int
  | long
  | float
  | double
  | bytes
  | string
  | decimal
  | date
  | timeMillis
  | timeMicros
  | timestampMillis
  | timestampMicros
  | localTimestampMillis
  | localTimestampMicros
  | uuid
  | duration
  | array
  | map
  | union
  | record
  | enum
  | fixed
  | ref
  deriving DecidableEq, Repr

/-- Named shapes and references may repeat in a union. -/
def Kind.isNamed : Kind → Bool
  | .record | .enum | .fixed | .ref => true
  | _ => false

/-- A schema as the strict reading sees it. A decimal knows the size of the fixed type
that carries it; there is none where bytes do. -/
inductive Shape
  | plain (kind : Kind)
  | decimal (precision : UInt64) (carrier : Option UInt64)
  | array (items : Shape)
  | map (values : Shape)
  | union (members : List Shape)
  | record (name : Name) (fields : List (Field Shape))
  | enum (name : Name) (symbols : List String) (default : Option String)
  | fixed (name : Name) (size : UInt64)
  | ref (name : Name)

namespace Shape

instance : Inhabited Shape := ⟨.plain .null⟩

def kind : Shape → Kind
  | .plain k => k
  | .decimal .. => .decimal
  | .array _ => .array
  | .map _ => .map
  | .union _ => .union
  | .record .. => .record
  | .enum .. => .enum
  | .fixed .. => .fixed
  | .ref _ => .ref

/-- The namespace of a named shape or a reference. -/
def space : Shape → Option String
  | .record n _ | .enum n _ _ | .fixed n _ | .ref n => n.space
  | _ => none

end Shape

/-! ## Names -/

/-- A namespace is nothing, or identifiers between dots. -/
def isSpace (cs : List Char) : Bool :=
  cs.isEmpty || (Text.pieces '.' cs).all Name.isIdentifier

/-- The name that a dotted text writes: an identifier behind the last dot, and before it
a namespace. -/
def name? (text : String) : Option Name :=
  match Name.splitLastDot text.toList with
  | none => if Name.isIdentifier text.toList then some ⟨text, none⟩ else none
  | some (before, last) =>
    if Name.isIdentifier last && isSpace before then
      some ⟨String.ofList last, some (String.ofList before)⟩
    else none

/-- A namespace that is not empty. -/
def space? (space : Option String) : Option String := space.filter (· ≠ "")

/-- The full name of a reference: a name without a namespace takes the enclosing one. -/
def within (n : Name) (enclosing : Option String) : Name :=
  { n with space := n.space.or (space? enclosing) }

/-! ## Definitions -/

/-- Named shapes by their full names. -/
abbrev Known := List (Name × Shape)

namespace Shape

mutual

/-- The named shapes that a shape spells out. -/
def definitions (enclosing : Option String) : Shape → Known
  | .array s | .map s => s.definitions enclosing
  | .union members => memberDefinitions enclosing members
  | .enum n symbols default => [(within n enclosing, .enum n symbols default)]
  | .fixed n size => [(within n enclosing, .fixed n size)]
  | .record n fields =>
    (within n enclosing, .record n fields) ::
      fieldDefinitions (within n enclosing).space fields
  | .plain _ | .decimal .. | .ref _ => []

def memberDefinitions (enclosing : Option String) : List Shape → Known
  | [] => []
  | s :: rest => s.definitions enclosing ++ memberDefinitions enclosing rest

def fieldDefinitions (enclosing : Option String) : List (Field Shape) → Known
  | [] => []
  | ⟨_, s, _⟩ :: rest => s.definitions enclosing ++ fieldDefinitions enclosing rest

end

end Shape

end Avro
end Restorable
