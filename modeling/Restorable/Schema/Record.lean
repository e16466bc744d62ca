-- SUMMARY: Assembling a record schema field by field.
import Restorable.Schema.Basic

/-!
# Records under assembly

A record takes its fields in order. A nullable field has the default `null`, any
other field has none.
-/
namespace Restorable

/-- A record to which fields are still appended. -/
structure RecordDraft where
  name : Name
  fields : List (Field Schema)

namespace RecordDraft

/-- A record without fields, under a dotted name. -/
def start (full : String) : RecordDraft := ⟨.ofFull full, []⟩

/-- Append a field. -/
def push (d : RecordDraft) (name : String) (schema : Schema) (nullable : Bool) : RecordDraft :=
  { d with fields := d.fields ++ [⟨name, schema, if nullable then some .null else none⟩] }

def schema (d : RecordDraft) : Schema := .record d.name none d.fields

end RecordDraft
end Restorable
