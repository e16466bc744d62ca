-- SUMMARY: Lengths of byte strings from schema documents stay below 2^32, down to the encoder.
import Restorable.Proofs.Encoder.Recorded
import Restorable.Proofs.Logical.Converted
import Restorable.Proofs.Schema.Checked

/-!
# Lengths of byte strings

The sizes of fixed types that the reader accepts are below 2^31. They become the lengths of
byte strings in logical types and in encoders, where nothing else gives a length.
-/
namespace Restorable

open Steps

/-! ## Schemas -/

namespace Schema

mutual

/-- Every size of a fixed type is below 2^32, at any depth. -/
def Short : Schema → Prop
  | .fixed _ size _ => size < 4294967296
  | .array s | .map s => s.Short
  | .union ss => MembersShort ss
  | .record _ _ fs => FieldsShort fs
  | _ => True

def MembersShort : List Schema → Prop
  | [] => True
  | s :: ss => s.Short ∧ MembersShort ss

def FieldsShort : List (Field Schema) → Prop
  | [] => True
  | ⟨_, s, _⟩ :: fs => s.Short ∧ FieldsShort fs

end

private theorem membersShort_of_forall {ss : List Schema} (h : ∀ s ∈ ss, s.Short) :
    MembersShort ss := by
  induction ss with
  | nil => trivial
  | cons s ss ih =>
    obtain ⟨hs, hss⟩ := List.forall_mem_cons.1 h
    exact ⟨hs, ih hss⟩

private theorem fieldsShort_of_forall {fs : List (Field Schema)} (h : ∀ f ∈ fs, f.schema.Short) :
    FieldsShort fs := by
  induction fs with
  | nil => trivial
  | cons f fs ih =>
    obtain ⟨hf, hfs⟩ := List.forall_mem_cons.1 h
    exact ⟨hf, ih hfs⟩

/-- The sizes that the reader accepts are even below 2^31. -/
theorem Checked.short {s : Schema} (h : s.Checked) : s.Short := by
  induction h with
  | @primitive s h => cases s <;> trivial
  | ref n => trivial
  | enum n symbols => trivial
  | @fixed n size a _ hsize =>
    have hshort : size < 4294967296 := UInt64.lt_trans hsize (by decide)
    exact hshort
  | array _ ih => exact ih
  | map _ ih => exact ih
  | union _ _ _ _ ih => exact membersShort_of_forall ih
  | record _ _ ih => exact fieldsShort_of_forall ih

theorem short_of_ofJson? {v : Json} {s : Schema} (h : ofJson? v = .ok s) : s.Short :=
  (checked_of_ofJson? h).short

end Schema

/-! ## Logical types -/

/-- The length of byte strings, where it is fixed, is below 2^32. -/
def Scalar.Short : Scalar → Prop
  | .binary (some length) => length < 4294967296
  | _ => True

namespace LogicalType

mutual

/-- Every length of a byte string is below 2^32, at any depth. -/
def Short : LogicalType → Prop
  | .scalar _ k => k.Short
  | .array _ e | .multiset _ e => e.Short
  | .map _ k v => k.Short ∧ v.Short
  | .row _ fs => FieldsShort fs

def FieldsShort : List (RowField LogicalType) → Prop
  | [] => True
  | ⟨_, t⟩ :: fs => t.Short ∧ FieldsShort fs

end

private theorem short_setNullable {t : LogicalType} (nullable : Bool) (h : t.Short) :
    (t.setNullable nullable).Short := by
  cases t <;> exact h

private theorem short_withNullability {t : LogicalType} (nullable : Bool) (h : t.Short) :
    (t.withNullability nullable).Short :=
  short_setNullable _ h

private theorem short_ofScalar {k : Scalar} (h : k.Short) : (ofScalar k).Short :=
  @short_withNullability (.scalar false k) false h

end LogicalType

namespace Schema

open LogicalType

private theorem short_bytesType {a : Option Refinement} {plain t : LogicalType}
    (hplain : plain.Short) (h : bytesType a plain = .ok t) : t.Short := by
  rcases bytesType_eq_ok h with rfl | ⟨precision, scale, -, rfl⟩
  · exact hplain
  · exact short_ofScalar (k := .decimal precision scale) trivial

private theorem short_intType (a : Option Refinement) : (intType a).Short := by
  unfold intType
  split <;> exact short_ofScalar trivial

private theorem short_longType (mapping : TimestampMapping) (a : Option Refinement) :
    (longType mapping a).Short := by
  unfold longType
  split <;> exact short_ofScalar trivial

variable {mapping : TimestampMapping}

mutual

/-- Lengths come from the sizes of fixed types. -/
theorem short_toLogical : (s : Schema) → s.Short → {t : LogicalType} →
    s.toLogical mapping = .ok t → t.Short
  | .null, _, _, h | .boolean, _, _, h | .float, _, _, h | .double, _, _, h
  | .string _, _, _, h | .enum _ _, _, _, h => by
    rw [toLogical] at h
    cases h
    exact short_ofScalar trivial
  | .int a, _, _, h => by
    rw [toLogical] at h
    cases h
    exact short_intType a
  | .long a, _, _, h => by
    rw [toLogical] at h
    cases h
    exact short_longType mapping a
  | .bytes a, _, _, h => by
    rw [toLogical] at h
    have hany : LogicalType.bytes.Short := short_ofScalar trivial
    exact short_bytesType hany h
  | .fixed _ size a, hs, _, h => by
    rw [toLogical] at h
    have hbinary : (LogicalType.binary size).Short := short_ofScalar hs
    exact short_bytesType hbinary h
  | .array items, hs, t, h => by
    obtain ⟨e, he, rfl⟩ := toLogical_array.1 h
    have hitems : e.Short := short_toLogical items hs he
    exact hitems
  | .map values, hs, t, h => by
    obtain ⟨v, hv, rfl⟩ := toLogical_map.1 h
    have hkey : LogicalType.string.Short := short_ofScalar trivial
    exact ⟨hkey, short_toLogical values hs hv⟩
  | .union members, hs, t, h => by
    rcases toLogical_union_cases h with ⟨s, hmem, u, hu, rfl | rfl⟩ | ⟨typeName, nullable, rfl⟩
    · exact short_members members hs s hmem hu
    · exact short_withNullability true (short_members members hs s hmem hu)
    · exact short_withNullability nullable (short_ofScalar trivial)
  | .record _ _ fields, hs, t, h => by
    obtain ⟨fs, hfs, -, rfl⟩ := toLogical_record.1 h
    have hfields : LogicalType.FieldsShort fs := short_fieldsToLogical fields hs hfs
    exact hfields
  | .ref _, _, _, h => by
    rw [toLogical] at h
    cases h

theorem short_members : (ss : List Schema) → MembersShort ss → ∀ s ∈ ss, ∀ {t : LogicalType},
    s.toLogical mapping = .ok t → t.Short
  | s :: ss, hss, r, hr, _, h => by
    rcases List.mem_cons.1 hr with heq | hr
    · rw [heq] at h
      exact short_toLogical s hss.1 h
    · exact short_members ss hss.2 r hr h

theorem short_fieldsToLogical : (fields : List (Field Schema)) → FieldsShort fields →
    {fs : List (RowField LogicalType)} → fieldsToLogical mapping fields = .ok fs →
    LogicalType.FieldsShort fs
  | [], _, _, h => by
    obtain rfl := fieldsToLogical_nil.1 h
    trivial
  | ⟨name, s, default⟩ :: fields, hs, _, h => by
    obtain ⟨t, rest, ht, hrest, rfl⟩ := fieldsToLogical_cons.1 h
    exact ⟨short_toLogical s hs.1 ht, short_fieldsToLogical fields hs.2 hrest⟩

end

end Schema

/-! ## Encoders -/

namespace Encoder

variable {κ : Type}

private theorem short_orAbsent (absent : Bool) {d : Descriptor}
    (h : (ofDescriptor d : Encoder κ).Short) :
    (ofDescriptor (d.orAbsent absent) : Encoder κ).Short := by
  cases absent with
  | false => exact h
  | true => exact .node (fun length heq => by cases heq) (List.forall_mem_singleton.2 h)

mutual

/-- The encoder of a logical type has the lengths of the type. -/
theorem short_ofLogical : (t : LogicalType) → t.Short →
    (ofDescriptor (.ofLogical t) : Encoder κ).Short
  | .scalar absent k, h => by
    have hleaf : (leaf k.leaf : Encoder κ).Short := by
      refine short_leaf.2 ?_
      cases k with
      | integer width => cases width <;> trivial
      | binary length => cases length <;> exact h
      | _ => trivial
    cases k with
    | null => exact hleaf
    | _ => exact short_orAbsent absent hleaf
  | .array absent e, h => short_orAbsent absent (.node (fun length heq => by cases heq)
      (List.forall_mem_singleton.2 (short_ofLogical e h)))
  | .multiset absent e, h => by
    have hcount : (leaf .int : Encoder κ).Short := short_leaf.2 trivial
    exact short_orAbsent absent (.node (fun length heq => by cases heq)
      (List.forall_mem_cons.2 ⟨short_ofLogical e h, List.forall_mem_singleton.2 hcount⟩))
  | .map absent k v, h => short_orAbsent absent (.node (fun length heq => by cases heq)
      (List.forall_mem_cons.2 ⟨short_ofLogical k h.1,
        List.forall_mem_singleton.2 (short_ofLogical v h.2)⟩))
  | .row absent fs, h => short_orAbsent absent (.node (fun length heq => by cases heq)
      (short_ofFields fs h))

theorem short_ofFields : (fs : List (RowField LogicalType)) → LogicalType.FieldsShort fs →
    ∀ c ∈ (ofFields (Descriptor.ofFields fs) : List (Encoder κ)), c.Short
  | [], _ => fun _ hc => nomatch hc
  | ⟨_, t⟩ :: fs, h => List.forall_mem_cons.2 ⟨short_ofLogical t h.1, short_ofFields fs h.2⟩

end

end Encoder
end Restorable
