-- SUMMARY: What is left of a logical type after it was written as a schema, and the round trip.
import Restorable.Proofs.Logical.Converted
import Restorable.Proofs.Schema.Drawn

/-!
# Exported types

Writing a type as a schema widens small integers, rounds the precision of times up to
milliseconds or microseconds, counts multisets in maps, reads every map key as a string
and makes null nullable. `LogicalType.exported` does exactly this and nothing else, and
reading the schema gives exactly the exported type.
-/
namespace Restorable

/-! ## What is left of a type -/

/-- The precisions that annotations know: milliseconds, and microseconds above them. -/
def roundedPrecision (precision : UInt32) : UInt32 :=
  if precision ≤ 3 then 3 else if precision ≤ 6 then 6 else precision

private theorem roundedPrecision_millis {precision : UInt32} (h : precision ≤ millisPrecision) :
    roundedPrecision precision = millisPrecision :=
  if_pos h

private theorem roundedPrecision_micros {precision : UInt32} (hm : ¬ precision ≤ millisPrecision)
    (hu : precision ≤ microsPrecision) : roundedPrecision precision = microsPrecision :=
  (if_neg hm).trans (if_pos hu)

/-- What is left of a scalar kind. -/
def Scalar.exported : Scalar → Scalar
  | .integer .tiny | .integer .small => .integer .int
  | .time precision => .time (roundedPrecision precision)
  | .timestamp precision zoned => .timestamp (roundedPrecision precision) zoned
  | k => k

namespace LogicalType

mutual

/-- What is left of a type, at every depth. -/
def exported : LogicalType → LogicalType
  | .scalar _ .null => .scalar true .null
  | .scalar nullable k => .scalar nullable k.exported
  | .array nullable e => .array nullable e.exported
  | .map nullable _ v => .map nullable (.scalar false .string) v.exported
  | .multiset nullable _ =>
    .map nullable (.scalar false .string) (.scalar false (.integer .int))
  | .row nullable fields => .row nullable (exportedFields fields)

/-- What is left of the fields of a row, under the same names and in the same order. -/
def exportedFields : List (RowField LogicalType) → List (RowField LogicalType)
  | [] => []
  | ⟨name, t⟩ :: fields => ⟨name, t.exported⟩ :: exportedFields fields

end

@[simp] theorem map_name_exportedFields (fields : List (RowField LogicalType)) :
    (exportedFields fields).map RowField.name = fields.map RowField.name := by
  induction fields with
  | nil => rfl
  | cons f fields ih =>
    obtain ⟨name, t⟩ := f
    simp only [exportedFields, List.map_cons, ih]

/-- The rule for field names looks at the names only. -/
@[simp] theorem checkFields_exportedFields (fields : List (RowField LogicalType)) :
    checkFields (exportedFields fields) = checkFields fields := by
  simp [checkFields]

/-! ## Reading one node -/

open Steps Schema

variable {mapping : TimestampMapping} {pool p : NamePool} {s : Schema}

/-- Null added in front of a schema makes the type that is read nullable. -/
private theorem toLogical_wrapNull {t : LogicalType} {nullable : Bool} (hs : s.isPlain = true)
    (h : s.toLogical mapping = .ok t) (ht : t.isNullable = false) :
    (s.wrapNull nullable).toLogical mapping = .ok (t.setNullable nullable) := by
  cases nullable with
  | false =>
    rw [wrapNull_false, h]
    cases t <;> simp_all [setNullable, isNullable]
  | true =>
    have hnull : s.isNull = false := by
      cases s <;> first | rfl | cases hs
    rw [wrapNull_true hs, toLogical_union]
    simp only [unionShape, show Schema.null.isNull = true from rfl, hnull, h]
    simp [Except.map, LogicalType.nullable, withNullability]

private theorem toLogical_annotateTime {precision : UInt32}
    (h : annotateTime mapping precision = .ok s) :
    s.isPlain = true ∧
      s.toLogical mapping = .ok (.scalar false (.time (roundedPrecision precision))) := by
  rcases annotateTime_eq_ok.1 h with ⟨hp, rfl⟩ | ⟨hp, rfl, hu, rfl⟩
  · rw [roundedPrecision_millis hp]
    exact ⟨rfl, rfl⟩
  · rw [roundedPrecision_micros hp hu]
    exact ⟨rfl, rfl⟩

private theorem longType_timestampRefinement {zoned micros : Bool} {a : Refinement}
    (h : timestampRefinement mapping zoned micros = some a) :
    longType mapping (some a) =
      .scalar false (.timestamp (if micros then microsPrecision else millisPrecision) zoned) := by
  cases mapping <;> cases zoned <;> cases micros <;> cases h <;> rfl

private theorem toLogical_annotateTimestamp {t : LogicalType} {precision : UInt32} {zoned : Bool}
    (h : annotateTimestamp mapping t precision zoned = .ok s) :
    s.isPlain = true ∧
      s.toLogical mapping = .ok (.scalar false (.timestamp (roundedPrecision precision) zoned)) := by
  obtain ⟨micros, a, ha, hp, rfl⟩ := annotateTimestamp_eq_ok.1 h
  refine ⟨rfl, ?_⟩
  simp only [toLogical, longType_timestampRefinement ha]
  rcases hp with ⟨hp, rfl⟩ | ⟨hp, hu, rfl⟩
  · rw [roundedPrecision_millis hp]
    rfl
  · rw [roundedPrecision_micros hp hu]
    rfl

/-- A scalar other than null gives a schema that reads as what is left of it. -/
theorem toLogical_scalarSchema {t : LogicalType} {name : String} {k : Scalar} (hk : k ≠ .null)
    (h : scalarSchema mapping t name k pool = .ok (s, p)) :
    s.isPlain = true ∧ s.toLogical mapping = .ok (.scalar false k.exported) := by
  cases k with
  | null => exact absurd rfl hk
  | integer width => cases width <;> obtain ⟨rfl, -⟩ := pure_eq_ok.1 h <;> exact ⟨rfl, rfl⟩
  | binary length =>
    cases length with
    | none => obtain ⟨rfl, -⟩ := pure_eq_ok.1 h; exact ⟨rfl, rfl⟩
    | some size =>
      obtain ⟨_, _, -, h⟩ := bind_eq_ok.1 h
      obtain ⟨rfl, -⟩ := pure_eq_ok.1 h
      exact ⟨rfl, rfl⟩
  | decimal precision scale =>
    obtain ⟨_, _, hc, h⟩ := bind_eq_ok.1 h
    obtain ⟨rfl, -⟩ := pure_eq_ok.1 h
    exact ⟨rfl, decimalType_eq_ok.2 ⟨checked_eq_ok.1 (lift_eq_ok.1 hc).1, rfl⟩⟩
  | time precision => exact toLogical_annotateTime (lift_eq_ok.1 h).1
  | timestamp precision zoned => exact toLogical_annotateTimestamp (lift_eq_ok.1 h).1
  | raw _ => exact (throw_eq_ok.1 h).elim
  | _ => obtain ⟨rfl, -⟩ := pure_eq_ok.1 h; exact ⟨rfl, rfl⟩

/-! ## Reading a tree -/

mutual

/-- A drawn schema reads as what is left of the type. -/
theorem toLogical_draw (t : LogicalType) {name : String} {pool p : NamePool} {s : Schema}
    (h : draw mapping t name pool = .ok (s, p)) : s.toLogical mapping = .ok t.exported := by
  match t with
  | .scalar nullable k =>
    obtain ⟨base, hbase, rfl⟩ := draw_scalar.1 h
    by_cases hk : k = .null
    · subst hk
      obtain ⟨rfl, -⟩ := pure_eq_ok.1 hbase
      rw [wrapNull_null]
      rfl
    · obtain ⟨hplain, hread⟩ := toLogical_scalarSchema hk hbase
      rw [toLogical_wrapNull hplain hread rfl]
      cases k <;> first | rfl | exact absurd rfl hk
  | .array nullable e =>
    obtain ⟨items, hitems, rfl⟩ := draw_array.1 h
    have hread : (Schema.array items).toLogical mapping = .ok (.array false e.exported) :=
      toLogical_array.2 ⟨e.exported, toLogical_draw e hitems, rfl⟩
    exact toLogical_wrapNull rfl hread rfl
  | .map nullable k v =>
    obtain ⟨-, values, hvalues, rfl⟩ := draw_map.1 h
    have hread : (Schema.map values).toLogical mapping =
        .ok (.map false (.scalar false .string) v.exported) :=
      toLogical_map.2 ⟨v.exported, toLogical_draw v hvalues, rfl⟩
    exact toLogical_wrapNull rfl hread rfl
  | .multiset nullable e =>
    obtain ⟨-, rfl, -⟩ := draw_multiset.1 h
    have hread : (Schema.map (.int none)).toLogical mapping =
        .ok (.map false (.scalar false .string) (.scalar false (.integer .int))) := rfl
    exact toLogical_wrapNull rfl hread rfl
  | .row nullable fields =>
    obtain ⟨hc, fs, hfs, rfl⟩ := draw_row.1 h
    have hread : ∀ n : Name, (Schema.record n none fs).toLogical mapping =
        .ok (.row false (exportedFields fields)) := by
      intro n
      have hcheck := (checkFields_exportedFields fields).trans hc
      exact toLogical_record.2 ⟨_, fieldsToLogical_drawEach fields hfs, hcheck, rfl⟩
    exact toLogical_wrapNull rfl (hread _) rfl

theorem fieldsToLogical_drawEach (fields : List (RowField LogicalType)) {record : String}
    {pool p : NamePool} {fs : List (Field Schema)}
    (h : drawEach mapping record fields pool = .ok (fs, p)) :
    fieldsToLogical mapping fs = .ok (exportedFields fields) := by
  match fields with
  | [] =>
    obtain ⟨rfl, -⟩ := drawEach_nil.1 h
    rfl
  | ⟨field, t⟩ :: fields =>
    obtain ⟨s, p', rest, hs, hrest, rfl⟩ := drawEach_cons.1 h
    have hfield := toLogical_draw t hs
    exact fieldsToLogical_cons.2 ⟨_, _, hfield, fieldsToLogical_drawEach fields hrest, rfl⟩

end

/-- Whatever schema a type is written as, reading it under the same mapping of timestamps
gives what is left of the type. -/
theorem toLogical_toSchema (mapping : TimestampMapping) (t : LogicalType) (name : String)
    (s : Schema) (h : t.toSchema mapping name = .ok s) :
    s.toLogical mapping = .ok t.exported := by
  obtain ⟨p, hp⟩ := toSchema_eq_ok.1 h
  exact toLogical_draw t hp

/-- A row with every kind of loss in it. -/
theorem toLogical_toSchema_row :
    let t : LogicalType := .row false [
      ⟨"id", .scalar false (.integer .tiny)⟩,
      ⟨"at", .scalar true (.timestamp 5 true)⟩,
      ⟨"hash", .scalar false (.binary (some 16))⟩,
      ⟨"tags", .multiset true (.scalar true .string)⟩,
      ⟨"void", .scalar false .null⟩]
    let s : Schema := .record ⟨"r", none⟩ none [
      ⟨"id", .int none, none⟩,
      ⟨"at", .union [.null, .long (some .timestampMicros)], some .null⟩,
      ⟨"hash", .fixed ⟨"r_hash", none⟩ 16 none, none⟩,
      ⟨"tags", .union [.null, .map (.int none)], some .null⟩,
      ⟨"void", .null, none⟩]
    t.toSchema .modern "r" = .ok s ∧ s.toLogical .modern = .ok (.row false [
      ⟨"id", .scalar false (.integer .int)⟩,
      ⟨"at", .scalar true (.timestamp 6 true)⟩,
      ⟨"hash", .scalar false (.binary (some 16))⟩,
      ⟨"tags", .map true (.scalar false .string) (.scalar false (.integer .int))⟩,
      ⟨"void", .scalar true .null⟩]) := by
  intro t s
  have ht : t.toSchema .modern "r" = .ok s := rfl
  exact ⟨ht, toLogical_toSchema .modern t "r" s ht⟩

end LogicalType
end Restorable
