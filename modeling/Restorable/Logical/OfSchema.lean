-- SUMMARY: The logical type of a schema, under either mapping of timestamps.
import Restorable.Failure
import Restorable.Schema.Basic

/-!
# From schemas to logical types

Records become rows, enums strings, and a union with null a nullable type; a union
without such a meaning becomes a raw type named after its members. The mapping of
timestamps decides what the annotations of longs mean.
-/
namespace Restorable

/-- How timestamps are mapped. The legacy mapping reads every timestamp as local and
has no zoned ones. -/
inductive TimestampMapping
  | legacy
  | modern
  deriving DecidableEq, Repr

def millisPrecision : UInt32 := 3

def microsPrecision : UInt32 := 6

namespace Schema

/-- A decimal with at most 38 digits. -/
def decimalType (precision scale : UInt32) : Except Failure LogicalType :=
  if maxDecimalPrecision < precision then
    .error (.precisionRange .decimal precision maxDecimalPrecision)
  else
    match LogicalType.decimal? precision scale with
    | .ok t => .ok t
    | .error fault => .error (.invalidType fault)

/-- A row with different field names. -/
def rowType (fields : List (RowField LogicalType)) : Except Failure LogicalType :=
  match LogicalType.row? fields with
  | .ok t => .ok t
  | .error fault => .error (.invalidType fault)

def intType : Option Refinement → LogicalType
  | some .date => .date
  | some .timeMillis => .time millisPrecision
  | _ => .int

def longType (mapping : TimestampMapping) (a : Option Refinement) : LogicalType :=
  match a, mapping with
  | some .timeMillis, _ => .time millisPrecision
  | some .timeMicros, _ => .time microsPrecision
  | some .timestampMillis, .legacy => .timestamp millisPrecision
  | some .timestampMicros, .legacy => .timestamp microsPrecision
  | some .timestampMillis, .modern => .zonedTimestamp millisPrecision
  | some .timestampMicros, .modern => .zonedTimestamp microsPrecision
  | some .localTimestampMillis, .modern => .timestamp millisPrecision
  | some .localTimestampMicros, .modern => .timestamp microsPrecision
  | _, _ => .bigint

/-- A decimal where bytes are annotated as one, else byte strings as given. -/
def bytesType (a : Option Refinement) (plain : LogicalType) : Except Failure LogicalType :=
  match a with
  | some (.decimal precision scale) => decimalType precision scale
  | _ => .ok plain

mutual

/-- The logical type of a schema. -/
def toLogical (mapping : TimestampMapping) : Schema → Except Failure LogicalType
  | .null => .ok .null
  | .boolean => .ok .boolean
  | .int a => .ok (intType a)
  | .long a => .ok (longType mapping a)
  | .float => .ok .float
  | .double => .ok .double
  | .string _ => .ok .string
  | .bytes a => bytesType a .bytes
  | .fixed _ size a => bytesType a (.binary size)
  | .enum _ _ => .ok .string
  | .array items => do return .arrayOf (← items.toLogical mapping)
  | .map values => do return .mapOf .string (← values.toLogical mapping)
  | .union [] => .error (.unsupported (.union .noMembers))
  | .union [only] => only.toLogical mapping
  | .union [a, b] =>
    match a.isNull, b.isNull with
    | true, true => .error (.unsupported (.union .onlyNulls))
    | true, false => do return (← b.toLogical mapping).nullable
    | false, true => do return (← a.toLogical mapping).nullable
    | false, false => .ok (LogicalType.raw (unionSummary [a, b]))
  | .union members =>
    .ok ((LogicalType.raw (unionSummary members)).withNullability (members.any isNull))
  | .record _ _ fields => do rowType (← fieldsToLogical mapping fields)
  | .ref n => .error (.unsupported (.recursiveReference n))

/-- The types of the fields of a record, from first to last. -/
def fieldsToLogical (mapping : TimestampMapping) :
    List (Field Schema) → Except Failure (List (RowField LogicalType))
  | [] => .ok []
  | ⟨name, s, _⟩ :: fields => do
    let t ← s.toLogical mapping
    return ⟨name, t⟩ :: (← fieldsToLogical mapping fields)

end

/-- A union takes its type from what its members mean. -/
theorem toLogical_union (mapping : TimestampMapping) (members : List Schema) :
    (Schema.union members).toLogical mapping =
      match unionShape members with
      | .error fault => .error (.unsupported (.union fault))
      | .ok (.single inner) => inner.toLogical mapping
      | .ok (.nullable inner) => (inner.toLogical mapping).map LogicalType.nullable
      | .ok (.mixed nullable) =>
        .ok ((LogicalType.raw (unionSummary members)).withNullability nullable) := by
  match members with
  | [] => simp [toLogical, unionShape]
  | [only] => simp [toLogical, unionShape]
  | [a, b] =>
    cases ha : a.isNull <;> cases hb : b.isNull <;> simp only [toLogical, unionShape, ha, hb]
    · rfl
    · cases toLogical mapping a <;> rfl
    · cases toLogical mapping b <;> rfl
  | a :: b :: c :: rest => simp [toLogical, unionShape]

end Schema
end Restorable
