-- SUMMARY: The built-in kinds of encoders: ids, format versions and widenings.

/-!
# Kinds of encoders

A built-in kind is known by its id in snapshots. Decimals and timestamps are at the
second version of their format: the first recorded no scale and no zone flag. Some
kinds can be widened by writing the values again.
-/
namespace Restorable

/-- A built-in kind of encoder. -/
inductive Kind
  | void
  | boolean
  | byte
  | short
  | int
  | long
  | float
  | double
  | string
  | bytes
  | decimal
  | date
  | time
  | timestamp
  | array
  | map
  | row
  | nullable
  | either
  | generic
  deriving DecidableEq, Repr

namespace Kind

/-- The id that snapshots carry. -/
def id : Kind → String
  | .void => "void"
  | .boolean => "boolean"
  | .byte => "byte"
  | .short => "short"
  | .int => "int"
  | .long => "long"
  | .float => "float"
  | .double => "double"
  | .string => "string"
  | .bytes => "bytes"
  | .decimal => "decimal"
  | .date => "date"
  | .time => "time"
  | .timestamp => "timestamp"
  | .array => "array"
  | .map => "map"
  | .row => "row"
  | .nullable => "nullable"
  | .either => "either"
  | .generic => "generic"

/-- Every built-in kind. -/
def all : List Kind :=
  [.void, .boolean, .byte, .short, .int, .long, .float, .double, .string, .bytes, .decimal, .date,
    .time, .timestamp, .array, .map, .row, .nullable, .either, .generic]

/-- The kind with this id. -/
def ofId? (id : String) : Option Kind := all.find? (·.id = id)

theorem id_injective {k l : Kind} (h : k.id = l.id) : k = l := by
  revert h
  cases k <;> cases l <;> decide

theorem ofId?_eq_some_iff {id : String} {k : Kind} : ofId? id = some k ↔ k.id = id := by
  constructor
  · intro h
    simpa using List.find?_some h
  · rintro rfl
    cases k <;> decide

@[simp] theorem ofId?_id (k : Kind) : ofId? k.id = some k := ofId?_eq_some_iff.2 rfl

/-- The current version of the format. -/
def version : Kind → UInt32
  | .decimal | .timestamp => 2
  | _ => 1

/-- Whether values of the kind `previous` can be written again as values of this kind. -/
def widens : (current previous : Kind) → Bool
  | .short, .byte => true
  | .int, .byte | .int, .short => true
  | .long, .byte | .long, .short | .long, .int => true
  | .double, .float => true
  | _, _ => false

end Kind
end Restorable
