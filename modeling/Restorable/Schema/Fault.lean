-- SUMMARY: The faults of schema documents, one constructor for each cause, and their texts.
import Restorable.Json.Writer
import Restorable.Schema.Name

/-!
# Faults of schema documents

The reader stops at the first fault in document order. A fault carries what its text
names: a type by its full name, a field by its name, a value as it stands.
-/
namespace Restorable

/-- Why a document is not a schema. -/
inductive SchemaFault
  | invalidJson
  | notSchema (value : Json)
  | undefinedName (text : String)
  | emptyUnion
  | unionInUnion
  | duplicateMember (key : String)
  | missingType
  | missingName
  | invalidName (name : Name)
  | reservedName (text : String)
  | missingSymbols (name : Name)
  | symbolNotString
  | missingSize (name : Name)
  | sizeTooLarge (name : Name) (size : UInt64)
  | fixedTooSmall (size : UInt64) (precision : UInt32) (greatest : Nat)
  | missingItems
  | missingValues
  | missingFields (name : Name)
  | fieldWithoutName (record : Name)
  | invalidFieldName (field : String)
  | duplicateField (field : String) (record : Name)
  | fieldWithoutType (field : String)
  | conflictingDefinitions (name : Name)
  | precisionNotPositive
  | scaleAbovePrecision (scale precision : UInt64)
  | precisionOutOfRange (precision : UInt64)

/-- What is wrong, in words. -/
def SchemaFault.message : SchemaFault → String
  | .invalidJson => "invalid JSON"
  | .notSchema v => "expected a type name, union or object, got " ++ v.compact
  | .undefinedName text => "undefined name: " ++ text
  | .emptyUnion => "union must have at least one member"
  | .unionInUnion => "unions may not immediately contain other unions"
  | .duplicateMember key => "duplicate union member: " ++ key
  | .missingType => "schema object missing 'type'"
  | .missingName => "named type missing 'name'"
  | .invalidName n => s!"invalid name '{n.full}'"
  | .reservedName text => s!"'{text}' cannot be redefined"
  | .missingSymbols n => s!"enum {n.full} missing 'symbols'"
  | .symbolNotString => "enum symbols must be strings"
  | .missingSize n => s!"fixed {n.full} missing 'size'"
  | .sizeTooLarge n size => s!"fixed {n.full} size {size} is too large"
  | .fixedTooSmall size precision greatest =>
    s!"fixed({size}) cannot store {precision} digits (max {greatest})"
  | .missingItems => "array missing 'items'"
  | .missingValues => "map missing 'values'"
  | .missingFields n => s!"record {n.full} missing 'fields'"
  | .fieldWithoutName record => s!"field of record {record.full} missing 'name'"
  | .invalidFieldName field => s!"invalid field name '{field}'"
  | .duplicateField field record => s!"duplicate field '{field}' in record {record.full}"
  | .fieldWithoutType field => s!"field '{field}' missing 'type'"
  | .conflictingDefinitions n => "conflicting definitions for named type " ++ n.full
  | .precisionNotPositive => "decimal requires a positive 'precision'"
  | .scaleAbovePrecision scale precision => s!"decimal scale {scale} exceeds precision {precision}"
  | .precisionOutOfRange precision => s!"decimal precision {precision} out of range"

end Restorable
