-- SUMMARY: What schemas are read as, and that the modern mapping writes all of it back unchanged.
import Restorable.Proofs.Logical.Exported
import Restorable.Proofs.Schema.Refusals

/-!
# Ingested types

A type that was read from a schema has only what schemas have: integers of 32 or 64 bits,
times in milliseconds or microseconds, valid decimals, string keys, rows with different
field names, and no multisets. Of such a type nothing is lost when it is written under the
modern mapping, and nothing but a raw type can stand in the way.
-/
namespace Restorable

open Steps

/-! ## What schemas have -/

/-- The scalar kinds that schemas have. -/
def Scalar.Native : Scalar → Prop
  | .integer width => width = .int ∨ width = .big
  | .decimal precision scale => checkDecimal precision scale = .ok ()
  | .time precision | .timestamp precision _ =>
    precision = millisPrecision ∨ precision = microsPrecision
  | _ => True

namespace LogicalType

mutual

/-- A type has only what schemas have, at any depth. -/
def Native : LogicalType → Prop
  | .scalar nullable k => k.Native ∧ (k = .null → nullable = true)
  | .array _ e => e.Native
  | .map _ k v => k = .string ∧ v.Native
  | .multiset _ _ => False
  | .row _ fields => checkFields fields = .ok () ∧ FieldsNative fields

def FieldsNative : List (RowField LogicalType) → Prop
  | [] => True
  | ⟨_, t⟩ :: fields => t.Native ∧ FieldsNative fields

end

mutual

/-- All types in a type, in document order. -/
def nodes : LogicalType → List LogicalType
  | .scalar nullable k => [.scalar nullable k]
  | .array nullable e => .array nullable e :: e.nodes
  | .map nullable k v => .map nullable k v :: (k.nodes ++ v.nodes)
  | .multiset nullable e => .multiset nullable e :: e.nodes
  | .row nullable fields => .row nullable fields :: fieldNodes fields

def fieldNodes : List (RowField LogicalType) → List LogicalType
  | [] => []
  | ⟨_, t⟩ :: fields => t.nodes ++ fieldNodes fields

end

def isRaw : LogicalType → Bool
  | .scalar _ (.raw _) => true
  | _ => false

theorem category_of_isRaw {t : LogicalType} (h : t.isRaw = true) : t.category = "RAW" := by
  unfold isRaw at h
  split at h
  · rfl
  · cases h

private theorem native_withNullability {t : LogicalType} (nullable : Bool) (h : t.Native) :
    (t.withNullability nullable).Native := by
  cases t with
  | scalar _ k =>
    refine ⟨h.1, ?_⟩
    rintro rfl
    exact Bool.or_true nullable
  | _ => exact h

private theorem native_ofScalar {k : Scalar} (h : k.Native) : (ofScalar k).Native := by
  refine ⟨h, ?_⟩
  rintro rfl
  rfl

end LogicalType

/-! ## What is read -/

namespace Schema

open LogicalType

private theorem native_bytesType {a : Option Refinement} {plain t : LogicalType}
    (hplain : plain.Native) (h : bytesType a plain = .ok t) : t.Native := by
  rcases bytesType_eq_ok h with rfl | ⟨precision, scale, hcheck, rfl⟩
  · exact hplain
  · have hdecimal : (Scalar.decimal precision scale).Native := hcheck
    exact native_ofScalar hdecimal

private theorem native_intType (a : Option Refinement) : (intType a).Native := by
  unfold intType
  split
  · exact native_ofScalar trivial
  · exact native_ofScalar (.inl rfl)
  · exact native_ofScalar (.inl rfl)

private theorem native_longType (mapping : TimestampMapping) (a : Option Refinement) :
    (longType mapping a).Native := by
  unfold longType
  split <;> exact native_ofScalar (by simp [Scalar.Native])

variable {mapping : TimestampMapping}

mutual

/-- Whatever a schema is read as, it has only what schemas have. -/
theorem native_toLogical : (s : Schema) → {t : LogicalType} → s.toLogical mapping = .ok t →
    t.Native
  | .null, _, h | .boolean, _, h | .float, _, h | .double, _, h | .string _, _, h
  | .enum _ _, _, h => by
    rw [toLogical] at h
    cases h
    exact native_ofScalar trivial
  | .int a, _, h => by
    rw [toLogical] at h
    cases h
    exact native_intType a
  | .long a, _, h => by
    rw [toLogical] at h
    cases h
    exact native_longType mapping a
  | .bytes a, _, h => by
    rw [toLogical] at h
    have hany : LogicalType.bytes.Native := native_ofScalar trivial
    exact native_bytesType hany h
  | .fixed _ size a, _, h => by
    rw [toLogical] at h
    have hbinary : (LogicalType.binary size).Native := native_ofScalar trivial
    exact native_bytesType hbinary h
  | .array items, _, h => by
    obtain ⟨e, he, rfl⟩ := toLogical_array.1 h
    have hitems : e.Native := native_toLogical items he
    exact hitems
  | .map values, _, h => by
    obtain ⟨v, hv, rfl⟩ := toLogical_map.1 h
    exact ⟨rfl, native_toLogical values hv⟩
  | .union members, _, h => by
    rcases toLogical_union_cases h with ⟨s, hs, u, hu, rfl | rfl⟩ | ⟨typeName, nullable, rfl⟩
    · exact native_members members s hs hu
    · exact native_withNullability true (native_members members s hs hu)
    · exact native_withNullability nullable (native_ofScalar trivial)
  | .record _ _ fields, t, h => by
    obtain ⟨fs, hfs, hcheck, rfl⟩ := toLogical_record.1 h
    exact ⟨hcheck, native_fieldsToLogical fields hfs⟩
  | .ref _, _, h => by
    rw [toLogical] at h
    cases h

theorem native_members : (ss : List Schema) → ∀ s ∈ ss, ∀ {t : LogicalType},
    s.toLogical mapping = .ok t → t.Native
  | s :: ss, r, hr, _, h => by
    rcases List.mem_cons.1 hr with heq | hr
    · rw [heq] at h
      exact native_toLogical s h
    · exact native_members ss r hr h

theorem native_fieldsToLogical : (fields : List (Field Schema)) →
    {fs : List (RowField LogicalType)} → fieldsToLogical mapping fields = .ok fs → FieldsNative fs
  | [], _, h => by
    obtain rfl := fieldsToLogical_nil.1 h
    trivial
  | ⟨name, s, default⟩ :: fields, _, h => by
    obtain ⟨t, rest, ht, hrest, rfl⟩ := fieldsToLogical_cons.1 h
    exact ⟨native_toLogical s ht, native_fieldsToLogical fields hrest⟩

end

end Schema

/-! ## What is written -/

private theorem roundedPrecision_of_native {precision : UInt32}
    (h : precision = millisPrecision ∨ precision = microsPrecision) :
    roundedPrecision precision = precision := by
  rcases h with rfl | rfl <;> rfl

private theorem Scalar.exported_of_native {k : Scalar} (h : k.Native) : k.exported = k := by
  cases k with
  | integer width => rcases h with rfl | rfl <;> rfl
  | time precision => rw [exported, roundedPrecision_of_native h]
  | timestamp precision zoned => rw [exported, roundedPrecision_of_native h]
  | _ => rfl

namespace LogicalType

mutual

/-- Nothing of what schemas have is lost in a schema. -/
theorem exported_of_native : (t : LogicalType) → t.Native → t.exported = t
  | .scalar nullable k, h => by
    by_cases hk : k = .null
    · subst hk
      rw [exported, h.2 rfl]
    · rw [exported, Scalar.exported_of_native h.1]
      exact hk
  | .array nullable e, h => by
    have he : e.Native := h
    rw [exported, exported_of_native e he]
  | .map nullable k v, h => by
    rw [exported, exported_of_native v h.2, h.1]
    rfl
  | .row nullable fields, h => by
    rw [exported, exportedFields_of_native fields h.2]

theorem exportedFields_of_native : (fields : List (RowField LogicalType)) →
    FieldsNative fields → exportedFields fields = fields
  | [], _ => rfl
  | ⟨name, t⟩ :: fields, h => by
    rw [exportedFields, exported_of_native t h.1, exportedFields_of_native fields h.2]

end

/-- What schemas have fits the annotations of the modern mapping. -/
private theorem firstRefusal_scalar_of_native {nullable : Bool} {k : Scalar} (h : k.Native) :
    (scalar nullable k).firstRefusal .modern =
      ((scalar nullable k).nodes.find? isRaw).map fun r => .unsupported (.raw r) := by
  rw [firstRefusal, written, findSome?_cons_eq_or, List.findSome?_nil, Option.or_none, refusal]
  cases k with
  | decimal precision scale =>
    have hcheck : checked (checkDecimal precision scale) = .ok () := checked_eq_ok.2 h
    exact (@ends_checkDecimal .modern precision scale _).exists_ok_iff.1 ⟨(), hcheck⟩
  | time precision => rcases h with rfl | rfl <;> rfl
  | timestamp precision zoned => rcases h with rfl | rfl <;> rfl
  | _ => rfl

mutual

/-- A type that has only what schemas have is refused for a raw type only. -/
theorem firstRefusal_of_native : (t : LogicalType) → t.Native →
    t.firstRefusal .modern = (t.nodes.find? isRaw).map fun r => .unsupported (.raw r)
  | .scalar nullable k, h => firstRefusal_scalar_of_native h.1
  | .array nullable e, h => by
    have he : e.Native := h
    exact firstRefusal_of_native e he
  | .map nullable k v, h => by
    obtain ⟨rfl, hv⟩ := h
    exact firstRefusal_of_native v hv
  | .row nullable fields, h => by
    have hcheck : checked (checkFields fields) = .ok () := checked_eq_ok.2 h.1
    -- The rule for field names was checked when the row was read.
    have hrow : (row nullable fields).refusal .modern = none :=
      (ends_checkFields nullable fields).exists_ok_iff.1 ⟨(), hcheck⟩
    rw [firstRefusal, written, findSome?_cons_eq_or, hrow, Option.none_or]
    exact firstRefusals_of_native fields h.2

theorem firstRefusals_of_native : (fields : List (RowField LogicalType)) → FieldsNative fields →
    (writtenFields fields).findSome? (refusal .modern) =
      ((fieldNodes fields).find? isRaw).map fun r => .unsupported (.raw r)
  | [], _ => rfl
  | ⟨name, t⟩ :: fields, h => by
    have ht : t.written.findSome? (refusal .modern) = _ := firstRefusal_of_native t h.1
    rw [writtenFields, fieldNodes, List.findSome?_append, List.find?_append, Option.map_or, ht,
      firstRefusals_of_native fields h.2]

end

/-- What was read from a schema can be written as one exactly when there is no raw type in it,
and reading the new schema gives the type again. -/
theorem toSchema_of_toLogical (s : Schema) (name : String) (t : LogicalType)
    (h : s.toLogical .modern = .ok t) :
    ((∃ s', t.toSchema .modern name = .ok s') ↔ ∀ r ∈ t.nodes, r.isRaw = false) ∧
      (∀ failure, t.toSchema .modern name = .error failure →
        ∃ r, t.nodes.find? isRaw = some r ∧ failure = .unsupported (.raw r) ∧
          (Unsupported.raw r).category = "RAW") ∧
      ∀ s', t.toSchema .modern name = .ok s' → s'.toLogical .modern = .ok t := by
  have hnative : t.Native := Schema.native_toLogical s h
  have hends : Ends (t.toSchema .modern name)
      ((t.nodes.find? isRaw).map fun r => .unsupported (.raw r)) :=
    firstRefusal_of_native t hnative ▸ ends_toSchema t name
  refine ⟨?_, ?_, ?_⟩
  · rw [hends.exists_ok_iff, Option.map_eq_none_iff, List.find?_eq_none]
    simp only [Bool.not_eq_true]
  · intro failure hfail
    obtain ⟨r, hr, rfl⟩ := Option.map_eq_some_iff.1 (hends.eq_error_iff.1 hfail)
    refine ⟨r, hr, rfl, ?_⟩
    exact category_of_isRaw (List.find?_some hr)
  · intro s' hs'
    rw [toLogical_toSchema .modern t name s' hs', exported_of_native t hnative]

/-- A record that comes back, and an array of a union that no logical type says. -/
theorem toSchema_of_toLogical_event :
    let event : Schema := .record ⟨"Event", some "shop"⟩ none [
      ⟨"at", .union [.null, .long (some .timestampMicros)], some .null⟩,
      ⟨"kind", .enum ⟨"Kind", some "shop"⟩ ["sale", "refund"], none⟩]
    let t : LogicalType := .row false [
      ⟨"at", .scalar true (.timestamp 6 true)⟩,
      ⟨"kind", .scalar false .string⟩]
    let choices : Schema := .array (.union [.int none, .string none])
    let u : LogicalType := .array false (.scalar false (.raw "union<int,string>"))
    event.toLogical .modern = .ok t ∧
      (∃ s', t.toSchema .modern "shop.Event" = .ok s' ∧ s'.toLogical .modern = .ok t) ∧
      choices.toLogical .modern = .ok u ∧ ¬ ∃ s', u.toSchema .modern "choices" = .ok s' := by
  intro event t choices u
  have ht : event.toLogical .modern = .ok t := rfl
  have hu : choices.toLogical .modern = .ok u := rfl
  obtain ⟨hwritten, -, hback⟩ := toSchema_of_toLogical event "shop.Event" t ht
  obtain ⟨s', hs'⟩ := hwritten.2 (by decide)
  refine ⟨ht, ⟨s', hs', hback s' hs'⟩, hu, fun hsome => ?_⟩
  have hnoRaw := (toSchema_of_toLogical choices "choices" u hu).1.1 hsome
  exact absurd (hnoRaw (.scalar false (.raw "union<int,string>")) (by decide)) (by decide)

end LogicalType
end Restorable
