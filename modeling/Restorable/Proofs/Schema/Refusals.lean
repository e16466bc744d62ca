-- SUMMARY: Why a logical type has no schema: the first node that a schema cannot say.
import Restorable.Proofs.Schema.Drawn

/-!
# Refused types

A schema cannot say decimals out of range, rows with a repeated field name, keys that are no
strings, raw types, and times finer than the annotations of the mapping. Which of them a type
meets first, in document order, decides how its conversion ends, and nothing else does: the
name and the names drawn so far have no part in it.
-/
namespace Restorable

open Steps

/-! ## One node -/

/-- The finest precision that the annotations of a mapping have. -/
def TimestampMapping.finest : TimestampMapping → UInt32
  | .legacy => 3
  | .modern => 6

/-- The kind of timestamp that a failure names. -/
def TimestampMapping.timestampWord : TimestampMapping → Bool → LimitedType
  | .legacy, _ => .timestamp
  | .modern, true => .zonedTimestamp
  | .modern, false => .localTimestamp

/-- Why a schema cannot say a type `t` of this scalar kind. -/
def Scalar.refusal (mapping : TimestampMapping) (t : LogicalType) : Scalar → Option Failure
  | .decimal precision scale =>
    if precision = 0 ∨ maxDecimalPrecision < precision then
      some (.invalidType (.decimalPrecision precision))
    else if precision < scale then some (.invalidType (.decimalScale scale precision))
    else none
  | .time precision =>
    if mapping.finest < precision then some (.precisionRange .time precision mapping.finest)
    else none
  | .timestamp precision zoned =>
    if mapping = .legacy ∧ zoned = true then some (.unsupported (.zoned t))
    else if mapping.finest < precision then
      some (.precisionRange (mapping.timestampWord zoned) precision mapping.finest)
    else none
  | .raw _ => some (.unsupported (.raw t))
  | _ => none

namespace LogicalType

/-- Why a schema cannot say a type, whatever the types inside it are. -/
def refusal (mapping : TimestampMapping) : LogicalType → Option Failure
  | .scalar nullable k => k.refusal mapping (.scalar nullable k)
  | .array _ _ => none
  | .map nullable k v =>
    if k.isString then none else some (.unsupported (.keyNotString (.map nullable k v) k))
  | .multiset nullable e =>
    if e.isString then none else some (.unsupported (.keyNotString (.multiset nullable e) e))
  | .row _ fields =>
    (firstRepeat [] (fields.map RowField.name)).map fun name => .invalidType (.duplicateField name)

mutual

/-- The types that are written for a type, in document order: itself and what is inside it,
without the keys of maps and the elements of multisets. -/
def written : LogicalType → List LogicalType
  | .scalar nullable k => [.scalar nullable k]
  | .array nullable e => .array nullable e :: e.written
  | .map nullable k v => .map nullable k v :: v.written
  | .multiset nullable e => [.multiset nullable e]
  | .row nullable fields => .row nullable fields :: writtenFields fields

def writtenFields : List (RowField LogicalType) → List LogicalType
  | [] => []
  | ⟨_, t⟩ :: fields => t.written ++ writtenFields fields

end

/-- The first refusal in document order. -/
def firstRefusal (mapping : TimestampMapping) (t : LogicalType) : Option Failure :=
  t.written.findSome? (refusal mapping)

variable {mapping : TimestampMapping}

/-! ## Scalars -/

theorem ends_checkDecimal (precision scale : UInt32) (t : LogicalType) :
    Ends (checked (checkDecimal precision scale))
      ((Scalar.decimal precision scale).refusal mapping t) := by
  simp only [checkDecimal, Scalar.refusal]
  by_cases hrange : precision = 0 ∨ maxDecimalPrecision < precision
  · rw [if_pos hrange, if_pos hrange]
    exact .error _
  · rw [if_neg hrange, if_neg hrange]
    by_cases hscale : precision < scale
    · rw [if_pos hscale, if_pos hscale]
      exact .error _
    · rw [if_neg hscale, if_neg hscale]
      exact .ok ()

/-- One annotation, up to its precision. -/
private theorem ends_of_limit {precision limit : UInt32} {s : Schema} {failure : Failure} :
    Ends (if precision ≤ limit then .ok s else .error failure)
      (if limit < precision then some failure else none) := by
  by_cases h : precision ≤ limit
  · rw [if_pos h, if_neg (UInt32.not_lt.2 h)]
    exact .ok s
  · rw [if_neg h, if_pos (UInt32.not_le.1 h)]
    exact .error failure

/-- Two annotations, of which the finer one has the last word. -/
private theorem ends_of_limits {precision limit limit' : UInt32} {s s' : Schema} {failure : Failure}
    (hle : limit ≤ limit') :
    Ends (if precision ≤ limit then .ok s
        else if precision ≤ limit' then .ok s' else .error failure)
      (if limit' < precision then some failure else none) := by
  by_cases h : precision ≤ limit
  · rw [if_pos h, if_neg (UInt32.not_lt.2 (UInt32.le_trans h hle))]
    exact .ok s
  · rw [if_neg h]
    exact ends_of_limit

private theorem ends_annotateTime (precision : UInt32) (t : LogicalType) :
    Ends (annotateTime mapping precision) ((Scalar.time precision).refusal mapping t) := by
  cases mapping with
  | legacy => exact ends_of_limit
  | modern => exact ends_of_limits (by decide)

private theorem ends_annotateTimestamp (precision : UInt32) (zoned : Bool) (t : LogicalType) :
    Ends (annotateTimestamp mapping t precision zoned)
      ((Scalar.timestamp precision zoned).refusal mapping t) := by
  cases mapping with
  | legacy =>
    cases zoned with
    | true => exact .error _
    | false => exact ends_of_limit
  | modern => cases zoned <;> exact ends_of_limits (by decide)

private theorem ends_scalarSchema (t : LogicalType) (name : String) (k : Scalar) (pool : NamePool) :
    Ends (scalarSchema mapping t name k pool) (k.refusal mapping t) := by
  cases k with
  | integer width => cases width <;> exact .ok _
  | binary length => cases length <;> exact .ok _
  | decimal precision scale =>
    have hcheck := (@ends_checkDecimal mapping precision scale t).lift (s := pool)
    exact hcheck.bind_pure
  | time precision => exact (ends_annotateTime precision t).lift
  | timestamp precision zoned => exact (ends_annotateTimestamp precision zoned t).lift
  | raw typeName => exact .error _
  | _ => exact .ok _

/-! ## Types -/

private theorem ends_requireString (collection key : LogicalType) :
    Ends (requireString collection key)
      (if key.isString then none else some (.unsupported (.keyNotString collection key))) := by
  unfold requireString
  split
  · exact .ok ()
  · exact .error _

theorem ends_checkFields (nullable : Bool) (fields : List (RowField LogicalType)) :
    Ends (checked (checkFields fields)) ((row nullable fields).refusal mapping) := by
  simp only [checkFields, refusal]
  cases firstRepeat [] (fields.map RowField.name) with
  | none => exact .ok ()
  | some name => exact .error _

mutual

/-- Drawing a schema ends with the first refusal of the type. -/
theorem ends_draw : (t : LogicalType) → (name : String) → (pool : NamePool) →
    Ends (draw mapping t name pool) (t.firstRefusal mapping)
  | .scalar nullable k, name, pool => by
    rw [firstRefusal, written, findSome?_cons_eq_or, List.findSome?_nil, Option.or_none]
    exact (ends_scalarSchema _ name k pool).bind_pure
  | .array nullable e, name, pool => by
    have hitems : Ends (draw mapping e name pool) (e.firstRefusal mapping) := ends_draw e name pool
    exact hitems.bind_pure
  | .map nullable k v, name, pool => by
    rw [firstRefusal, written, findSome?_cons_eq_or]
    refine (ends_requireString _ k).lift.bind fun _ p _ => ?_
    exact (ends_draw v name p).bind_pure
  | .multiset nullable e, name, pool => by
    rw [firstRefusal, written, findSome?_cons_eq_or, List.findSome?_nil, Option.or_none]
    exact (ends_requireString _ e).lift.bind_pure
  | .row nullable fields, name, pool => by
    rw [firstRefusal, written, findSome?_cons_eq_or]
    refine (ends_checkFields nullable fields).lift.bind fun _ p _ => ?_
    rw [bind_of_ok (drawName_eq_ok.2 ⟨rfl, rfl⟩)]
    exact (ends_drawFields fields _ _ (p.claim name).2).bind_pure

theorem ends_drawFields : (fields : List (RowField LogicalType)) → (record : String) →
    (draft : RecordDraft) → (pool : NamePool) →
    Ends (drawFields mapping fields record draft pool)
      ((writtenFields fields).findSome? (refusal mapping))
  | [], record, draft, pool => .ok _
  | ⟨field, t⟩ :: fields, record, draft, pool => by
    rw [writtenFields, List.findSome?_append]
    exact (ends_draw t _ pool).bind fun s p _ => ends_drawFields fields record _ p

end

/-- The conversion to a schema ends with the first refusal of the type. -/
theorem ends_toSchema (t : LogicalType) (name : String) :
    Ends (t.toSchema mapping name) (t.firstRefusal mapping) :=
  (ends_draw t name .empty).map

/-! ## Offending types -/

/-- The types that no schema of the mapping says, whatever the types inside them are. -/
inductive Offends (mapping : TimestampMapping) : LogicalType → Prop
  | decimal {nullable precision scale}
      (h : ¬ (1 ≤ precision ∧ precision ≤ 38 ∧ scale ≤ precision)) :
      Offends mapping (.scalar nullable (.decimal precision scale))
  | time {nullable precision} (h : mapping.finest < precision) :
      Offends mapping (.scalar nullable (.time precision))
  | zoned {nullable precision} (h : mapping = .legacy) :
      Offends mapping (.scalar nullable (.timestamp precision true))
  | timestamp {nullable precision zoned} (h : mapping.finest < precision) :
      Offends mapping (.scalar nullable (.timestamp precision zoned))
  | raw {nullable typeName} : Offends mapping (.scalar nullable (.raw typeName))
  | key {nullable k v} (h : k.isString = false) : Offends mapping (.map nullable k v)
  | element {nullable e} (h : e.isString = false) : Offends mapping (.multiset nullable e)
  | fields {nullable fields} (h : ¬ (fields.map RowField.name).Nodup) :
      Offends mapping (.row nullable fields)

private theorem refusal_decimal_eq_none {precision scale : UInt32} {t : LogicalType} :
    (Scalar.decimal precision scale).refusal mapping t = none ↔
      1 ≤ precision ∧ precision ≤ 38 ∧ scale ≤ precision := by
  rw [← (ends_checkDecimal precision scale t).exists_ok_iff, ← checkDecimal_eq_ok]
  exact ⟨fun ⟨_, h⟩ => checked_eq_ok.1 h, fun h => ⟨(), checked_eq_ok.2 h⟩⟩

private theorem refusal_row_eq_none {nullable : Bool} {fields : List (RowField LogicalType)} :
    (row nullable fields).refusal mapping = none ↔ (fields.map RowField.name).Nodup := by
  rw [← (ends_checkFields nullable fields).exists_ok_iff, ← checkFields_eq_ok]
  exact ⟨fun ⟨_, h⟩ => checked_eq_ok.1 h, fun h => ⟨(), checked_eq_ok.2 h⟩⟩

/-- A scalar has a refusal exactly when it offends. -/
private theorem scalar_refusal_eq_none {nullable : Bool} {k : Scalar} :
    k.refusal mapping (.scalar nullable k) = none ↔ ¬ Offends mapping (.scalar nullable k) := by
  cases k with
  | decimal precision scale =>
    rw [refusal_decimal_eq_none]
    exact ⟨fun h hoff => by cases hoff with | decimal hnot => exact hnot h,
      fun h => Decidable.not_not.1 fun hnot => h (.decimal hnot)⟩
  | time precision =>
    simp only [Scalar.refusal, ite_eq_right_iff, reduceCtorEq, imp_false]
    exact not_congr ⟨.time, fun hoff => by cases hoff with | time h => exact h⟩
  | timestamp precision zoned =>
    have hiff : Offends mapping (.scalar nullable (.timestamp precision zoned)) ↔
        (mapping = .legacy ∧ zoned = true) ∨ mapping.finest < precision := by
      constructor
      · intro hoff
        cases hoff with
        | zoned h => exact .inl ⟨h, rfl⟩
        | timestamp h => exact .inr h
      · rintro (⟨h, rfl⟩ | h)
        · exact .zoned h
        · exact .timestamp h
    rw [hiff, not_or, Scalar.refusal]
    by_cases hzoned : mapping = .legacy ∧ zoned = true
    · simp [hzoned]
    · simp [hzoned]
  | raw typeName => exact iff_of_false (fun h => nomatch h) (fun h => h .raw)
  | _ => exact iff_of_true rfl (fun hoff => nomatch hoff)

/-- A type has a refusal exactly when it offends. -/
theorem refusal_eq_none_iff {t : LogicalType} : t.refusal mapping = none ↔ ¬ t.Offends mapping := by
  cases t with
  | scalar nullable k => exact scalar_refusal_eq_none
  | array nullable e => exact iff_of_true rfl (fun hoff => nomatch hoff)
  | map nullable k v =>
    cases hk : k.isString with
    | true =>
      refine iff_of_true (if_pos hk) fun hoff => ?_
      cases hoff with
      | key h => exact absurd hk (h ▸ Bool.noConfusion)
    | false => exact iff_of_false (fun h => by simp [refusal, hk] at h) (fun h => h (.key hk))
  | multiset nullable e =>
    cases he : e.isString with
    | true =>
      refine iff_of_true (if_pos he) fun hoff => ?_
      cases hoff with
      | element h => exact absurd he (h ▸ Bool.noConfusion)
    | false => exact iff_of_false (fun h => by simp [refusal, he] at h) (fun h => h (.element he))
  | row nullable fields =>
    rw [refusal_row_eq_none]
    exact ⟨fun h hoff => by cases hoff with | fields hnot => exact hnot h,
      fun h => Decidable.not_not.1 fun hnot => h (.fields hnot)⟩

/-- The conversion to a schema succeeds exactly when no type that is written offends, and fails
exactly with the refusal of the first one that does, under whatever name. -/
theorem toSchema_first_offence (mapping : TimestampMapping) (t : LogicalType) (name : String) :
    ((∃ s, t.toSchema mapping name = .ok s) ↔ ∀ u ∈ t.written, ¬ u.Offends mapping) ∧
      ∀ failure, t.toSchema mapping name = .error failure ↔
        ∃ before u after, t.written = before ++ u :: after ∧
          (∀ w ∈ before, ¬ w.Offends mapping) ∧ u.Offends mapping ∧
          u.refusal mapping = some failure := by
  have hends : Ends (t.toSchema mapping name) (t.written.findSome? (refusal mapping)) :=
    ends_toSchema t name
  constructor
  · rw [hends.exists_ok_iff, List.findSome?_eq_none_iff]
    simp only [refusal_eq_none_iff]
  · intro failure
    rw [hends.eq_error_iff, List.findSome?_eq_some_iff]
    constructor
    · rintro ⟨before, u, after, hwritten, hu, hbefore⟩
      refine ⟨before, u, after, hwritten, fun w hw => refusal_eq_none_iff.1 (hbefore w hw), ?_, hu⟩
      refine Classical.not_not.1 fun hnot => ?_
      rw [refusal_eq_none_iff.2 hnot] at hu
      cases hu
    · rintro ⟨before, u, after, hwritten, hbefore, -, hu⟩
      exact ⟨before, u, after, hwritten, hu, fun w hw => refusal_eq_none_iff.2 (hbefore w hw)⟩

end LogicalType
end Restorable
