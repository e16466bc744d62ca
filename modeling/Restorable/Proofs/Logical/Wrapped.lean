-- SUMMARY: What adding null in front of a schema that was read does to its unions and to its type.
import Restorable.Proofs.Schema.Checked
import Restorable.Schema.Writer

/-!
# Schemas with null added

Adding null makes every schema accept it, and the logical type of the result is that of the
schema, nullable. Null and a union with null stay as they are; any other schema becomes the
second member of a new union. So the result has a union directly inside a union exactly when
it was made of a union without null.
-/
namespace Restorable
namespace Schema

/-! ## Flat unions -/

mutual

/-- No union stands directly inside a union, at any depth. -/
def Flat : Schema → Prop
  | .array s | .map s => s.Flat
  | .union ss => (∀ s ∈ ss, s.isUnion = false) ∧ AllFlat ss
  | .record _ _ fs => FieldsFlat fs
  | _ => True

def AllFlat : List Schema → Prop
  | [] => True
  | s :: ss => s.Flat ∧ AllFlat ss

def FieldsFlat : List (Field Schema) → Prop
  | [] => True
  | ⟨_, s, _⟩ :: fs => s.Flat ∧ FieldsFlat fs

end

private theorem allFlat_iff {ss : List Schema} : AllFlat ss ↔ ∀ s ∈ ss, s.Flat := by
  induction ss with
  | nil => simp [AllFlat]
  | cons s ss ih => simp [AllFlat, ih]

private theorem fieldsFlat_iff {fs : List (Field Schema)} :
    FieldsFlat fs ↔ ∀ f ∈ fs, f.schema.Flat := by
  induction fs with
  | nil => simp [FieldsFlat]
  | cons f fs ih => simp [FieldsFlat, ih]

/-- The reader refuses unions inside unions, wherever they stand. -/
theorem Checked.flat {s : Schema} (h : s.Checked) : s.Flat := by
  induction h with
  | @primitive s h => cases s <;> trivial
  | ref n => trivial
  | enum n symbols => trivial
  | fixed _ _ => trivial
  | array _ ih => exact ih
  | map _ ih => exact ih
  | union _ hflat _ _ ih => exact ⟨hflat, allFlat_iff.2 ih⟩
  | record _ _ ih => exact fieldsFlat_iff.2 ih

/-! ## Adding null -/

variable {s : Schema}

theorem wrapNull_of_admitsNull (h : s.admitsNull = true) (nullable : Bool) :
    s.wrapNull nullable = s := by
  simp [wrapNull, h]

theorem wrapNull_of_not_admitsNull (h : s.admitsNull = false) :
    s.wrapNull true = .union [.null, s] := by
  simp [wrapNull, h]

@[simp] theorem admitsNull_wrapNull (s : Schema) : (s.wrapNull true).admitsNull = true := by
  cases h : s.admitsNull with
  | true => rw [wrapNull_of_admitsNull h, h]
  | false => rw [wrapNull_of_not_admitsNull h]; rfl

/-- A flat schema stays flat, unless it is a union without null. -/
theorem flat_wrapNull_iff (hs : s.Flat) :
    (s.wrapNull true).Flat ↔ (s.isUnion = true → s.admitsNull = true) := by
  cases h : s.admitsNull with
  | true =>
    rw [wrapNull_of_admitsNull h]
    exact iff_of_true hs fun _ => rfl
  | false =>
    have hunion : (Schema.union [.null, s]).Flat ↔ s.isUnion = false := by
      have hnull : Schema.null.isUnion = false := rfl
      simp [Flat, AllFlat, hs, hnull]
    rw [wrapNull_of_not_admitsNull h, hunion]
    simp

/-! ## Logical types -/

variable {mapping : TimestampMapping} {t : LogicalType}

private theorem not_isNull_of_not_admitsNull (h : s.admitsNull = false) : s.isNull = false := by
  cases s <;> first | rfl | cases h

private theorem toLogical_of_isNull (h : s.isNull = true) : s.toLogical mapping = .ok .null := by
  cases s with
  | null => rfl
  | _ => cases h

@[simp] theorem isNullable_setNullable (t : LogicalType) (nullable : Bool) :
    (t.setNullable nullable).isNullable = nullable := by
  cases t <;> rfl

/-- Setting the flag of a nullable type changes nothing. -/
private theorem setNullable_of_isNullable (h : t.isNullable = true) : t.setNullable true = t := by
  cases t <;> cases h <;> rfl

/-- A schema that accepts null has a nullable type, if it has one. -/
private theorem isNullable_of_admitsNull (hs : s.admitsNull = true)
    (h : s.toLogical mapping = .ok t) :
    t.isNullable = true := by
  cases s with
  | null =>
    cases h
    rfl
  | union members =>
    rw [toLogical_union] at h
    match members, hs with
    | [only], hs =>
      have honly : only.isNull = true := by simpa [admitsNull] using hs
      simp only [unionShape, toLogical_of_isNull honly] at h
      cases h
      rfl
    | [a, b], hs =>
      -- One of the two is null, and two nulls have no type.
      have hsome : a.isNull = true ∨ b.isNull = true := by simpa [admitsNull] using hs
      cases ha : a.isNull <;> cases hb : b.isNull <;> simp only [unionShape, ha, hb] at h
      · simp [ha, hb] at hsome
      · cases hu : a.toLogical mapping <;> rw [hu] at h <;> cases h
        exact isNullable_setNullable _ true
      · cases hu : b.toLogical mapping <;> rw [hu] at h <;> cases h
        exact isNullable_setNullable _ true
      · cases h
    | a :: b :: c :: rest, hs =>
      have hany : (a :: b :: c :: rest).any isNull = true := hs
      simp only [unionShape, hany] at h
      cases h
      rfl
  | _ => cases hs

/-- With null added a schema has its own type, nullable, or fails as it does. -/
theorem toLogical_wrapNull_true (s : Schema) :
    (s.wrapNull true).toLogical mapping =
      (s.toLogical mapping).map (LogicalType.setNullable true) := by
  cases hadmits : s.admitsNull with
  | true =>
    rw [wrapNull_of_admitsNull hadmits]
    cases h : s.toLogical mapping with
    | error failure => rfl
    | ok t =>
      have hnullable := setNullable_of_isNullable (isNullable_of_admitsNull hadmits h)
      simp [Except.map, hnullable]
  | false =>
    have hnull : Schema.null.isNull = true := rfl
    rw [wrapNull_of_not_admitsNull hadmits, toLogical_union]
    simp only [unionShape, hnull, not_isNull_of_not_admitsNull hadmits]
    rfl

/-! ## Schemas that were read -/

/-- With null added a schema that was read accepts null, and its type is the one that it had, with
the flag set, or it fails as it did. It has no union directly inside a union exactly if it was
no union without null. -/
theorem wrapNull_of_ofJson? (v : Json) (s : Schema) (h : ofJson? v = .ok s) :
    (s.wrapNull true).admitsNull = true ∧
      ((s.wrapNull true).Flat ↔ (s.isUnion = true → s.admitsNull = true)) ∧
      ∀ mapping, (s.wrapNull true).toLogical mapping =
        (s.toLogical mapping).map (LogicalType.setNullable true) :=
  ⟨admitsNull_wrapNull s, flat_wrapNull_iff (checked_of_ofJson? h).flat,
    fun _ => toLogical_wrapNull_true s⟩

/-- A mixed union with null behind other members, one of them a list of optional strings. -/
theorem wrapNull_of_ofJson?_mixed :
    let v : Json := .arr [.str "int", .str "null",
      .obj [("type", .str "array"), ("items", .arr [.str "string", .str "null"])]]
    let s : Schema := .union [.int none, .null, .array (.union [.string none, .null])]
    ofJson? v = .ok s ∧ (s.wrapNull true).admitsNull = true ∧ (s.wrapNull true).Flat ∧
      (s.wrapNull true).toLogical .modern =
        .ok (.scalar true (.raw "union<int,null,array>")) := by
  intro v s
  have hs : ofJson? v = .ok s := by rfl
  obtain ⟨hadmits, hflat, hlogical⟩ := wrapNull_of_ofJson? v s hs
  exact ⟨hs, hadmits, hflat.2 fun _ => rfl, (hlogical .modern).trans rfl⟩

/-- A union of one member is read, and with null added it is a union inside a union, whose
document is refused. -/
theorem wrapNull_single_not_flat :
    let v : Json := .arr [.str "int"]
    let s : Schema := .union [.int none]
    ofJson? v = .ok s ∧ s.wrapNull true = .union [.null, .union [.int none]] ∧
      ¬ (s.wrapNull true).Flat ∧
      ofJson? (s.wrapNull true).toJson = .error .unionInUnion := by
  intro v s
  have hs : ofJson? v = .ok s := by rfl
  refine ⟨hs, rfl, ?_, rfl⟩
  rw [flat_wrapNull_iff (checked_of_ofJson? hs).flat]
  intro hadmits
  cases hadmits rfl

end Schema
end Restorable
