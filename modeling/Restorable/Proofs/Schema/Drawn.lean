-- SUMMARY: What a successful conversion to a schema went through, one lemma for each kind of type.
import Restorable.Proofs.Steps
import Restorable.Schema.OfLogical

/-!
# Drawn schemas

Inversion of the conversion from logical types to schemas: for each constructor, what
was checked, which names were drawn, and which schema came out. The fields of a row are
stated without the record that they are appended to.
-/
namespace Restorable
namespace Schema

/-! ## Adding null -/

/-- Neither null nor a union, so that null can be added in front. -/
def isPlain : Schema → Bool
  | .null | .union _ => false
  | _ => true

theorem admitsNull_of_isPlain {s : Schema} (h : s.isPlain = true) : s.admitsNull = false := by
  cases s <;> first | rfl | cases h

theorem wrapNull_true {s : Schema} (h : s.isPlain = true) :
    s.wrapNull true = .union [.null, s] := by
  simp [wrapNull, admitsNull_of_isPlain h]

@[simp] theorem wrapNull_false (s : Schema) : s.wrapNull false = s := by
  simp [wrapNull]

@[simp] theorem wrapNull_null (nullable : Bool) : Schema.null.wrapNull nullable = .null := by
  simp [wrapNull, admitsNull]

end Schema

/-! ## Different field names -/

/-- Different names that were not seen before, with one of them in front. -/
theorem nodup_unseen_cons {seen names : List String} {name : String} :
    ((name :: names).Nodup ∧ ∀ n ∈ name :: names, n ∉ seen) ↔
      name ∉ seen ∧ names.Nodup ∧ ∀ n ∈ names, n ∉ name :: seen := by
  rw [List.nodup_cons, List.forall_mem_cons]
  constructor
  · rintro ⟨⟨hrep, hnodup⟩, hname, hnew⟩
    refine ⟨hname, hnodup, fun n hn hseen => ?_⟩
    rcases List.mem_cons.1 hseen with rfl | hseen
    · exact hrep hn
    · exact hnew n hn hseen
  · rintro ⟨hname, hnodup, hnew⟩
    refine ⟨⟨fun hrep => hnew name hrep List.mem_cons_self, hnodup⟩, hname, ?_⟩
    exact fun n hn hseen => hnew n hn (List.mem_cons_of_mem name hseen)

theorem firstRepeat_eq_none {seen names : List String} :
    firstRepeat seen names = none ↔ names.Nodup ∧ ∀ n ∈ names, n ∉ seen := by
  induction names generalizing seen with
  | nil => simp [firstRepeat]
  | cons name names ih =>
    rw [nodup_unseen_cons, firstRepeat, ← ih]
    by_cases hmem : name ∈ seen <;> simp [hmem]

@[simp] theorem checkFields_eq_ok {τ : Type} {fields : List (RowField τ)} :
    checkFields fields = .ok () ↔ (fields.map RowField.name).Nodup := by
  have hnone := @firstRepeat_eq_none [] (fields.map RowField.name)
  simp only [List.not_mem_nil, not_false_eq_true, implies_true, and_true] at hnone
  rw [← hnone]
  unfold checkFields
  cases firstRepeat [] (fields.map RowField.name) <;> simp

@[simp] theorem checkDecimal_eq_ok {precision scale : UInt32} :
    checkDecimal precision scale = .ok () ↔ 1 ≤ precision ∧ precision ≤ 38 ∧ scale ≤ precision := by
  unfold checkDecimal maxDecimalPrecision
  by_cases hrange : precision = 0 ∨ 38 < precision
  · rw [if_pos hrange]
    refine iff_of_false (fun h => nomatch h) ?_
    rintro ⟨hone, hmax, -⟩
    rcases hrange with rfl | hlarge
    · exact absurd hone (by decide)
    · exact UInt32.not_lt.2 hmax hlarge
  · obtain ⟨hzero, hmax⟩ := not_or.1 hrange
    have hone : 1 ≤ precision := by
      rw [← UInt32.toNat_inj] at hzero
      rw [UInt32.le_iff_toNat_le]
      exact Nat.one_le_iff_ne_zero.2 hzero
    rw [if_neg hrange]
    by_cases hscale : precision < scale
    · rw [if_pos hscale]
      exact iff_of_false (fun h => nomatch h) (fun h => UInt32.not_lt.2 h.2.2 hscale)
    · rw [if_neg hscale]
      exact iff_of_true rfl ⟨hone, UInt32.not_lt.1 hmax, UInt32.not_lt.1 hscale⟩

namespace LogicalType

open Steps

variable {mapping : TimestampMapping} {nullable : Bool} {name : String} {pool p : NamePool}
  {s : Schema}

/-! ## Fields without their record -/

/-- The default of a field: `null` where its type is nullable, else none. -/
def fieldDefault (nullable : Bool) : Option Json := if nullable then some .null else none

/-- The fields of a record, drawn from first to last. -/
def drawEach (mapping : TimestampMapping) (record : String) :
    List (RowField LogicalType) → Draw (List (Field Schema))
  | [] => return []
  | ⟨field, t⟩ :: fields => do
    let s ← draw mapping t (NamePool.childName record field)
    return ⟨field, s, fieldDefault t.isNullable⟩ :: (← drawEach mapping record fields)

@[simp] theorem drawEach_nil {record : String} {fs : List (Field Schema)} :
    drawEach mapping record [] pool = .ok (fs, p) ↔ [] = fs ∧ pool = p := by
  simp [drawEach]

theorem drawEach_cons {record field : String} {t : LogicalType}
    {fields : List (RowField LogicalType)} {fs : List (Field Schema)} :
    drawEach mapping record (⟨field, t⟩ :: fields) pool = .ok (fs, p) ↔
      ∃ s p' rest, draw mapping t (NamePool.childName record field) pool = .ok (s, p') ∧
        drawEach mapping record fields p' = .ok (rest, p) ∧
        ⟨field, s, fieldDefault t.isNullable⟩ :: rest = fs := by
  simp only [drawEach, bind_eq_ok, pure_eq_ok]
  constructor
  · rintro ⟨s, p', hs, rest, _, hrest, hfs, rfl⟩
    exact ⟨s, p', rest, hs, hrest, hfs⟩
  · rintro ⟨s, p', rest, hs, hrest, hfs⟩
    exact ⟨s, p', hs, rest, p, hrest, hfs, rfl⟩

/-- Fields keep their names. -/
theorem map_name_drawEach {record : String} {fields : List (RowField LogicalType)}
    {fs : List (Field Schema)} (h : drawEach mapping record fields pool = .ok (fs, p)) :
    fs.map Field.name = fields.map RowField.name := by
  induction fields generalizing pool fs with
  | nil =>
    obtain ⟨rfl, -⟩ := drawEach_nil.1 h
    rfl
  | cons f fields ih =>
    obtain ⟨field, t⟩ := f
    obtain ⟨s, p', rest, -, hrest, rfl⟩ := drawEach_cons.1 h
    simp only [List.map_cons, ih hrest]

/-- Appending fields to a draft is drawing them and appending them at once. -/
theorem drawFields_eq_ok {record : String} {fields : List (RowField LogicalType)}
    {draft d : RecordDraft} :
    drawFields mapping fields record draft pool = .ok (d, p) ↔
      ∃ fs, drawEach mapping record fields pool = .ok (fs, p) ∧
        ⟨draft.name, draft.fields ++ fs⟩ = d := by
  induction fields generalizing draft pool with
  | nil =>
    simp only [drawFields, pure_eq_ok, drawEach_nil]
    constructor
    · rintro ⟨rfl, rfl⟩
      exact ⟨[], ⟨rfl, rfl⟩, by simp⟩
    · rintro ⟨_, ⟨rfl, rfl⟩, rfl⟩
      exact ⟨by simp, rfl⟩
  | cons f fields ih =>
    obtain ⟨field, t⟩ := f
    simp only [drawFields, bind_eq_ok, ih, drawEach_cons]
    constructor
    · rintro ⟨s, p', hs, rest, hrest, rfl⟩
      exact ⟨_, ⟨s, p', rest, hs, hrest, rfl⟩, by simp [RecordDraft.push, fieldDefault]⟩
    · rintro ⟨_, ⟨s, p', rest, hs, hrest, rfl⟩, rfl⟩
      exact ⟨s, p', hs, rest, hrest, by simp [RecordDraft.push, fieldDefault]⟩

/-! ## Times -/

theorem annotateTime_eq_ok {precision : UInt32} :
    annotateTime mapping precision = .ok s ↔
      precision ≤ millisPrecision ∧ .int (some .timeMillis) = s ∨
      ¬ precision ≤ millisPrecision ∧ mapping = .modern ∧ precision ≤ microsPrecision ∧
        .long (some .timeMicros) = s := by
  unfold annotateTime
  by_cases hm : precision ≤ millisPrecision
  · simp [hm]
  · cases mapping with
    | legacy => simp [hm]
    | modern => by_cases hu : precision ≤ microsPrecision <;> simp [hm, hu]

/-- The annotation of longs for a timestamp, if the mapping has one. -/
def timestampRefinement (mapping : TimestampMapping) (zoned micros : Bool) : Option Refinement :=
  match mapping, zoned, micros with
  | .legacy, false, false => some .timestampMillis
  | .legacy, _, _ => none
  | .modern, true, false => some .timestampMillis
  | .modern, true, true => some .timestampMicros
  | .modern, false, false => some .localTimestampMillis
  | .modern, false, true => some .localTimestampMicros

theorem annotateTimestamp_eq_ok {t : LogicalType} {precision : UInt32} {zoned : Bool} :
    annotateTimestamp mapping t precision zoned = .ok s ↔
      ∃ micros a, timestampRefinement mapping zoned micros = some a ∧
        (precision ≤ millisPrecision ∧ micros = false ∨
          ¬ precision ≤ millisPrecision ∧ precision ≤ microsPrecision ∧ micros = true) ∧
        .long (some a) = s := by
  unfold annotateTimestamp
  by_cases hm : precision ≤ millisPrecision <;> by_cases hu : precision ≤ microsPrecision <;>
    cases mapping <;> cases zoned <;> simp [hm, hu, timestampRefinement]

/-! ## Types -/

theorem draw_scalar {k : Scalar} :
    draw mapping (.scalar nullable k) name pool = .ok (s, p) ↔
      ∃ base, scalarSchema mapping (.scalar nullable k) name k pool = .ok (base, p) ∧
        base.wrapNull nullable = s := by
  simp only [draw, bind_eq_ok, pure_eq_ok]
  constructor
  · rintro ⟨base, _, h, hs, rfl⟩
    exact ⟨base, h, hs⟩
  · rintro ⟨base, h, hs⟩
    exact ⟨base, p, h, hs, rfl⟩

theorem draw_array {e : LogicalType} :
    draw mapping (.array nullable e) name pool = .ok (s, p) ↔
      ∃ items, draw mapping e name pool = .ok (items, p) ∧
        (Schema.array items).wrapNull nullable = s := by
  simp only [draw, bind_eq_ok, pure_eq_ok]
  constructor
  · rintro ⟨items, _, h, hs, rfl⟩
    exact ⟨items, h, hs⟩
  · rintro ⟨items, h, hs⟩
    exact ⟨items, p, h, hs, rfl⟩

@[simp] theorem requireString_eq_ok {collection key : LogicalType} {u : Unit} :
    requireString collection key = .ok u ↔ key.isString = true := by
  unfold requireString
  split <;> simp_all

theorem draw_map {k v : LogicalType} :
    draw mapping (.map nullable k v) name pool = .ok (s, p) ↔
      k.isString = true ∧ ∃ values, draw mapping v name pool = .ok (values, p) ∧
        (Schema.map values).wrapNull nullable = s := by
  simp only [draw, bind_eq_ok, lift_eq_ok, requireString_eq_ok, pure_eq_ok]
  constructor
  · rintro ⟨_, _, ⟨hk, rfl⟩, values, _, h, hs, rfl⟩
    exact ⟨hk, values, h, hs⟩
  · rintro ⟨hk, values, h, hs⟩
    exact ⟨(), pool, ⟨hk, rfl⟩, values, p, h, hs, rfl⟩

theorem draw_multiset {e : LogicalType} :
    draw mapping (.multiset nullable e) name pool = .ok (s, p) ↔
      e.isString = true ∧ (Schema.map (.int none)).wrapNull nullable = s ∧ pool = p := by
  simp only [draw, bind_eq_ok, lift_eq_ok, requireString_eq_ok, pure_eq_ok]
  constructor
  · rintro ⟨_, _, ⟨he, rfl⟩, hs, hp⟩
    exact ⟨he, hs, hp⟩
  · rintro ⟨he, hs, hp⟩
    exact ⟨(), pool, ⟨he, rfl⟩, hs, hp⟩

@[simp] theorem checked_eq_ok {rule : Except TypeFault Unit} {u : Unit} :
    checked rule = .ok u ↔ rule = .ok () := by
  cases rule <;> simp [checked]

@[simp] theorem drawName_eq_ok {r : String} :
    drawName name pool = .ok (r, p) ↔ (pool.claim name).1 = r ∧ (pool.claim name).2 = p := by
  simp only [drawName, Except.ok.injEq, Prod.ext_iff]

theorem draw_row {fields : List (RowField LogicalType)} :
    draw mapping (.row nullable fields) name pool = .ok (s, p) ↔
      checkFields fields = .ok () ∧
      ∃ fs, drawEach mapping (pool.claim name).1 fields (pool.claim name).2 = .ok (fs, p) ∧
        (Schema.record (.ofFull (pool.claim name).1) none fs).wrapNull nullable = s := by
  simp only [draw, bind_eq_ok, lift_eq_ok, checked_eq_ok, drawName_eq_ok, drawFields_eq_ok,
    pure_eq_ok]
  constructor
  · rintro ⟨_, _, ⟨hc, rfl⟩, _, _, ⟨rfl, rfl⟩, _, _, ⟨fs, h, rfl⟩, hs, rfl⟩
    exact ⟨hc, fs, h, hs⟩
  · rintro ⟨hc, fs, h, hs⟩
    exact ⟨(), pool, ⟨hc, rfl⟩, _, _, ⟨rfl, rfl⟩, _, p, ⟨fs, h, rfl⟩, hs, rfl⟩

/-- The schema of a type is what is drawn from an empty pool. -/
theorem toSchema_eq_ok {t : LogicalType} :
    t.toSchema mapping name = .ok s ↔ ∃ p, draw mapping t name .empty = .ok (s, p) := by
  change (Prod.fst <$> draw mapping t name .empty) = .ok s ↔ _
  cases draw mapping t name .empty <;> simp [Functor.map, Except.map, Prod.ext_iff]

end LogicalType
end Restorable
