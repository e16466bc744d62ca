-- SUMMARY: What a successful conversion to a logical type went through, for each kind of schema.
import Restorable.Logical.OfSchema
import Restorable.Proofs.Steps

/-!
# Converted schemas

Inversion of the conversion from schemas to logical types: for each kind of schema with parts,
what its parts were converted to and which rule was checked. A union has the type of one of its
members, perhaps made nullable, or a raw type.
-/
namespace Restorable
namespace Schema

open Steps LogicalType

variable {mapping : TimestampMapping} {t : LogicalType}

/-! ## Rules -/

theorem decimalType_eq_ok {precision scale : UInt32} :
    decimalType precision scale = .ok t ↔
      checkDecimal precision scale = .ok () ∧ .scalar false (.decimal precision scale) = t := by
  unfold decimalType decimal?
  by_cases hmax : maxDecimalPrecision < precision
  · simp [hmax, checkDecimal]
  · rw [if_neg hmax]
    cases checkDecimal precision scale with
    | error fault => simp [bind, Except.bind]
    | ok u =>
      simp [ofScalar, notNull, withNullability, setNullable, LogicalType.isNull, bind,
        Except.bind, pure, Except.pure]

/-- Byte strings get their plain type, or that of a valid decimal. -/
theorem bytesType_eq_ok {a : Option Refinement} {plain : LogicalType}
    (h : bytesType a plain = .ok t) :
    plain = t ∨ ∃ precision scale, checkDecimal precision scale = .ok () ∧
      .scalar false (.decimal precision scale) = t := by
  unfold bytesType at h
  split at h
  · exact .inr ⟨_, _, decimalType_eq_ok.1 h⟩
  · exact .inl (Except.ok.inj h)

theorem rowType_eq_ok {fields : List (RowField LogicalType)} :
    rowType fields = .ok t ↔ checkFields fields = .ok () ∧ .row false fields = t := by
  unfold rowType row?
  cases checkFields fields with
  | error fault => simp [bind, Except.bind]
  | ok u => simp [bind, Except.bind, pure, Except.pure]

/-! ## Schemas with parts -/

theorem toLogical_array {items : Schema} :
    (array items).toLogical mapping = .ok t ↔
      ∃ e, items.toLogical mapping = .ok e ∧ .array false e = t := by
  rw [toLogical, exceptBind_eq_ok]
  simp only [pure, Except.pure, Except.ok.injEq, arrayOf]

theorem toLogical_map {values : Schema} :
    (map values).toLogical mapping = .ok t ↔
      ∃ v, values.toLogical mapping = .ok v ∧ .map false .string v = t := by
  rw [toLogical, exceptBind_eq_ok]
  simp only [pure, Except.pure, Except.ok.injEq, mapOf]

theorem toLogical_record {n : Name} {doc : Option String} {fields : List (Field Schema)} :
    (record n doc fields).toLogical mapping = .ok t ↔
      ∃ fs, fieldsToLogical mapping fields = .ok fs ∧ checkFields fs = .ok () ∧
        .row false fs = t := by
  rw [toLogical, exceptBind_eq_ok]
  simp only [rowType_eq_ok]

@[simp] theorem fieldsToLogical_nil {fs : List (RowField LogicalType)} :
    fieldsToLogical mapping [] = .ok fs ↔ [] = fs := by
  rw [fieldsToLogical, Except.ok.injEq]

theorem fieldsToLogical_cons {name : String} {s : Schema} {default : Option Json}
    {fields : List (Field Schema)} {fs : List (RowField LogicalType)} :
    fieldsToLogical mapping (⟨name, s, default⟩ :: fields) = .ok fs ↔
      ∃ t rest, s.toLogical mapping = .ok t ∧ fieldsToLogical mapping fields = .ok rest ∧
        ⟨name, t⟩ :: rest = fs := by
  simp only [fieldsToLogical, exceptBind_eq_ok, pure, Except.pure, Except.ok.injEq]
  constructor
  · rintro ⟨t, ht, rest, hrest, hfs⟩
    exact ⟨t, rest, ht, hrest, hfs⟩
  · rintro ⟨t, rest, ht, hrest, hfs⟩
    exact ⟨t, ht, rest, hrest, hfs⟩

/-- Fields keep their names. -/
theorem map_name_fieldsToLogical {fields : List (Field Schema)} {fs : List (RowField LogicalType)}
    (h : fieldsToLogical mapping fields = .ok fs) :
    fs.map RowField.name = fields.map Field.name := by
  induction fields generalizing fs with
  | nil =>
    obtain rfl := fieldsToLogical_nil.1 h
    rfl
  | cons f fields ih =>
    obtain ⟨name, s, default⟩ := f
    obtain ⟨t, rest, -, hrest, rfl⟩ := fieldsToLogical_cons.1 h
    rw [List.map_cons, List.map_cons, ih hrest]

/-- A union has the type of a member, perhaps made nullable, or a raw type. -/
theorem toLogical_union_cases {members : List Schema}
    (h : (union members).toLogical mapping = .ok t) :
    (∃ s ∈ members, ∃ u, s.toLogical mapping = .ok u ∧ (u = t ∨ u.nullable = t)) ∨
      ∃ typeName nullable, (raw typeName).withNullability nullable = t := by
  match members with
  | [] =>
    rw [toLogical] at h
    cases h
  | [only] =>
    rw [toLogical] at h
    exact .inl ⟨only, List.mem_cons_self, t, h, .inl rfl⟩
  | [a, b] =>
    rw [toLogical] at h
    split at h
    · cases h
    · obtain ⟨u, hu, h⟩ := exceptBind_eq_ok.1 h
      cases h
      exact .inl ⟨b, List.mem_cons_of_mem a List.mem_cons_self, u, hu, .inr rfl⟩
    · obtain ⟨u, hu, h⟩ := exceptBind_eq_ok.1 h
      cases h
      exact .inl ⟨a, List.mem_cons_self, u, hu, .inr rfl⟩
    · cases h
      exact .inr ⟨unionSummary [a, b], false, rfl⟩
  | a :: b :: c :: rest =>
    simp only [toLogical] at h
    cases h
    exact .inr ⟨_, _, rfl⟩

end Schema
end Restorable
