-- SUMMARY: The schema of a logical type, with named types drawn from a pool of names.
import Restorable.Logical.OfSchema
import Restorable.Schema.NamePool
import Restorable.Schema.Record
import Restorable.Schema.Nullability

/-!
# From logical types to schemas

Rows become records and byte strings of one length fixed types, both under names that
follow the path of fields from the root. Nullable types become unions with null in
front. What a schema cannot say is refused, and the first such place is reported.
-/
namespace Restorable
namespace LogicalType

/-! ## Scalars -/

/-- The schema of a time of day. Microseconds need the modern mapping. -/
def annotateTime (mapping : TimestampMapping) (precision : UInt32) : Except Failure Schema :=
  if precision ≤ millisPrecision then .ok (.int (some .timeMillis))
  else
    match mapping with
    | .legacy => .error (.precisionRange .time precision millisPrecision)
    | .modern =>
      if precision ≤ microsPrecision then .ok (.long (some .timeMicros))
      else .error (.precisionRange .time precision microsPrecision)

/-- The schema of a timestamp. The legacy mapping has local ones in milliseconds only. -/
def annotateTimestamp (mapping : TimestampMapping) (t : LogicalType) (precision : UInt32)
    (zoned : Bool) : Except Failure Schema :=
  match mapping, zoned with
  | .legacy, true => .error (.unsupported (.zoned t))
  | .legacy, false =>
    if precision ≤ millisPrecision then .ok (.long (some .timestampMillis))
    else .error (.precisionRange .timestamp precision millisPrecision)
  | .modern, true =>
    if precision ≤ millisPrecision then .ok (.long (some .timestampMillis))
    else if precision ≤ microsPrecision then .ok (.long (some .timestampMicros))
    else .error (.precisionRange .zonedTimestamp precision microsPrecision)
  | .modern, false =>
    if precision ≤ millisPrecision then .ok (.long (some .localTimestampMillis))
    else if precision ≤ microsPrecision then .ok (.long (some .localTimestampMicros))
    else .error (.precisionRange .localTimestamp precision microsPrecision)

/-- A rule of logical types that a type built by hand may break. -/
def checked (rule : Except TypeFault Unit) : Except Failure Unit :=
  match rule with
  | .ok () => .ok ()
  | .error fault => .error (.invalidType fault)

/-- Keys of maps and elements of multisets have to be strings. -/
def requireString (collection key : LogicalType) : Except Failure Unit :=
  if key.isString then .ok () else .error (.unsupported (.keyNotString collection key))

/-- A step of the conversion, with the names drawn so far. -/
abbrev Draw (α : Type) := StateT NamePool (Except Failure) α

/-- Draw a name from the pool. -/
def drawName (candidate : String) : Draw String := fun pool => .ok (pool.claim candidate)

/-- The schema of a scalar, before null is added. -/
def scalarSchema (mapping : TimestampMapping) (t : LogicalType) (name : String) :
    Scalar → Draw Schema
  | .null => return .null
  | .boolean => return .boolean
  | .integer .big => return .long none
  | .integer _ => return .int none
  | .float => return .float
  | .double => return .double
  | .string => return .string none
  | .binary none => return .bytes none
  | .binary (some size) => do return .fixed (.ofFull (← drawName name)) size none
  | .decimal precision scale => do
    checked (checkDecimal precision scale)
    return .bytes (some (.decimal precision scale))
  | .date => return .int (some .date)
  | .time precision => annotateTime mapping precision
  | .timestamp precision zoned => annotateTimestamp mapping t precision zoned
  | .raw _ => throw (.unsupported (.raw t))

/-! ## Types -/

mutual

/-- The schema of a type, under `name` if it is a named one. -/
def draw (mapping : TimestampMapping) (t : LogicalType) (name : String) : Draw Schema :=
  match t with
  | .scalar nullable k => do
    return (← scalarSchema mapping (.scalar nullable k) name k).wrapNull nullable
  | .array nullable e => do
    return (Schema.array (← draw mapping e name)).wrapNull nullable
  | .map nullable k v => do
    requireString (.map nullable k v) k
    return (Schema.map (← draw mapping v name)).wrapNull nullable
  | .multiset nullable e => do
    requireString (.multiset nullable e) e
    return (Schema.map (.int none)).wrapNull nullable
  | .row nullable fields => do
    checked (checkFields fields)
    let record ← drawName name
    let draft ← drawFields mapping fields record (.start record)
    return draft.schema.wrapNull nullable

/-- Append the fields of a row to a record. -/
def drawFields (mapping : TimestampMapping) (fields : List (RowField LogicalType))
    (record : String) (draft : RecordDraft) : Draw RecordDraft :=
  match fields with
  | [] => return draft
  | ⟨field, t⟩ :: fields => do
    let s ← draw mapping t (NamePool.childName record field)
    drawFields mapping fields record (draft.push field s t.isNullable)

end

/-- The schema of a type, with `name` for the first named type in it. -/
def toSchema (mapping : TimestampMapping) (t : LogicalType) (name : String) :
    Except Failure Schema :=
  (draw mapping t name).run' .empty

end LogicalType
end Restorable
