-- SUMMARY: How nullable types show in the schema that is drawn for a type, at every depth.
import Restorable.Proofs.Schema.Published
import Restorable.Proofs.Schema.Refusals

/-!
# Null in drawn schemas

The flag of a type shows in its schema as a union with null in front, and in a field of a record
as the default `null`. Both are decided apart, node by node; they agree at every depth as soon
as null itself is nullable.
-/
namespace Restorable

open Steps

/-! ## Places and fields -/

/-- The default of a field tells whether its schema admits null, which then comes first. -/
structure Field.TellsNull (f : Field Schema) : Prop where
  null_iff : f.default = some .null ↔ f.schema.admitsNull = true
  otherwise : f.schema.admitsNull = false → f.default = none
  first : f.schema.admitsNull = true → f.schema = .null ∨ ∃ x, f.schema = .union [.null, x]

/-- A schema without the null in front of it. -/
def Schema.behindNull : Schema → Schema
  | .union [.null, s] => s
  | s => s

private theorem Schema.not_isUnion_of_isPlain {s : Schema} (h : s.isPlain = true) :
    s.isNull = false ∧ s.isUnion = false := by
  cases s <;> first | exact ⟨rfl, rfl⟩ | cases h

namespace LogicalType

mutual

/-- The types that are written, in document order, each with the schema at its place in the schema
of the whole. -/
def places : LogicalType → Schema → List (LogicalType × Schema)
  | .scalar nullable k, s => [(.scalar nullable k, s)]
  | .array nullable e, s =>
    (.array nullable e, s) ::
      match s.behindNull with
      | .array items => e.places items
      | _ => []
  | .map nullable k v, s =>
    (.map nullable k v, s) ::
      match s.behindNull with
      | .map values => v.places values
      | _ => []
  | .multiset nullable e, s => [(.multiset nullable e, s)]
  | .row nullable fields, s =>
    (.row nullable fields, s) ::
      match s.behindNull with
      | .record _ _ fs => fieldPlaces fields fs
      | _ => []

def fieldPlaces : List (RowField LogicalType) → List (Field Schema) → List (LogicalType × Schema)
  | ⟨_, t⟩ :: fields, ⟨_, s, _⟩ :: fs => t.places s ++ fieldPlaces fields fs
  | _, _ => []

end

/-- The type itself comes first. -/
private theorem head?_places (t : LogicalType) (s : Schema) : (t.places s).head? = some (t, s) := by
  cases t <;> rfl

variable {mapping : TimestampMapping} {name : String} {pool p : NamePool} {s : Schema}
  {t : LogicalType}

/-! ## One node -/

private theorem behindNull_wrapNull (hs : s.isPlain = true) (nullable : Bool) :
    (s.wrapNull nullable).behindNull = s := by
  cases nullable with
  | true =>
    rw [Schema.wrapNull_true hs]
    rfl
  | false =>
    rw [Schema.wrapNull_false]
    cases s <;> first | rfl | cases hs

/-- The schema of null is null; that of any other type is one without null, and null in front of
it if the type is nullable. -/
theorem shape_draw (h : draw mapping t name pool = .ok (s, p)) :
    (t.isNull = true ∧ s = .null) ∨
      (t.isNull = false ∧ ∃ x : Schema, x.isPlain = true ∧ s = x.wrapNull t.isNullable) := by
  cases t with
  | scalar nullable k =>
    obtain ⟨base, hbase, rfl⟩ := draw_scalar.1 h
    by_cases hk : k = .null
    · subst hk
      obtain ⟨rfl, -⟩ := pure_eq_ok.1 hbase
      exact .inl ⟨rfl, Schema.wrapNull_null nullable⟩
    · have hnull : (LogicalType.scalar nullable k).isNull = false := by
        cases k <;> first | rfl | exact absurd rfl hk
      exact .inr ⟨hnull, base, (toLogical_scalarSchema hk hbase).1, rfl⟩
  | array nullable e =>
    obtain ⟨items, -, rfl⟩ := draw_array.1 h
    exact .inr ⟨rfl, .array items, rfl, rfl⟩
  | map nullable k v =>
    obtain ⟨-, values, -, rfl⟩ := draw_map.1 h
    exact .inr ⟨rfl, .map values, rfl, rfl⟩
  | multiset nullable e =>
    obtain ⟨-, rfl, -⟩ := draw_multiset.1 h
    exact .inr ⟨rfl, .map (.int none), rfl, rfl⟩
  | row nullable fields =>
    obtain ⟨-, fs, -, rfl⟩ := draw_row.1 h
    exact .inr ⟨rfl, .record _ none fs, rfl, rfl⟩

/-- The schema is a union exactly if the type is nullable and not null itself. -/
theorem isUnion_draw_iff (h : draw mapping t name pool = .ok (s, p)) :
    s.isUnion = true ↔ t.isNullable = true ∧ t.isNull = false := by
  rcases shape_draw h with ⟨hnull, rfl⟩ | ⟨hnull, x, hx, rfl⟩
  · simp [hnull, Schema.isUnion]
  · cases hn : t.isNullable with
    | true => simp [Schema.wrapNull_true hx, Schema.isUnion, hnull]
    | false =>
      rw [Schema.wrapNull_false]
      simp [(Schema.not_isUnion_of_isPlain hx).2]

/-- A union that is drawn has null in front of a schema that is neither null nor a union. -/
private theorem union_draw (h : draw mapping t name pool = .ok (s, p)) (hs : s.isUnion = true) :
    ∃ x, s = .union [.null, x] ∧ x.isNull = false ∧ x.isUnion = false := by
  obtain ⟨hnullable, hnull⟩ := (isUnion_draw_iff h).1 hs
  rcases shape_draw h with ⟨hnull', -⟩ | ⟨-, x, hx, rfl⟩
  · cases hnull.symm.trans hnull'
  · rw [hnullable, Schema.wrapNull_true hx]
    exact ⟨x, rfl, Schema.not_isUnion_of_isPlain hx⟩

/-! ## All nodes -/

mutual

/-- Every type that is written has a place, with the schema that was drawn for it. -/
theorem places_draw (t : LogicalType) {name : String} {pool p : NamePool} {s : Schema}
    (h : draw mapping t name pool = .ok (s, p)) :
    (t.places s).map Prod.fst = t.written ∧
      ∀ d ∈ t.places s, ∃ name pool p, draw mapping d.1 name pool = .ok (d.2, p) := by
  match t with
  | .scalar nullable k => exact ⟨rfl, List.forall_mem_singleton.2 ⟨_, _, _, h⟩⟩
  | .array nullable e =>
    obtain ⟨items, hitems, rfl⟩ := draw_array.1 h
    obtain ⟨hwritten, hdrawn⟩ := places_draw e hitems
    have hplain : (Schema.array items).isPlain = true := rfl
    rw [places, behindNull_wrapNull hplain, written, List.map_cons, hwritten]
    exact ⟨rfl, List.forall_mem_cons.2 ⟨⟨_, _, _, h⟩, hdrawn⟩⟩
  | .map nullable k v =>
    obtain ⟨-, values, hvalues, rfl⟩ := draw_map.1 h
    obtain ⟨hwritten, hdrawn⟩ := places_draw v hvalues
    have hplain : (Schema.map values).isPlain = true := rfl
    rw [places, behindNull_wrapNull hplain, written, List.map_cons, hwritten]
    exact ⟨rfl, List.forall_mem_cons.2 ⟨⟨_, _, _, h⟩, hdrawn⟩⟩
  | .multiset nullable e => exact ⟨rfl, List.forall_mem_singleton.2 ⟨_, _, _, h⟩⟩
  | .row nullable fields =>
    obtain ⟨-, fs, hfs, rfl⟩ := draw_row.1 h
    obtain ⟨hwritten, hdrawn⟩ := fieldPlaces_drawEach fields hfs
    have hplain : (Schema.record (.ofFull (pool.claim name).1) none fs).isPlain = true := rfl
    rw [places, behindNull_wrapNull hplain, written, List.map_cons, hwritten]
    exact ⟨rfl, List.forall_mem_cons.2 ⟨⟨_, _, _, h⟩, hdrawn⟩⟩

theorem fieldPlaces_drawEach (fields : List (RowField LogicalType)) {record : String}
    {pool p : NamePool} {fs : List (Field Schema)}
    (h : drawEach mapping record fields pool = .ok (fs, p)) :
    (fieldPlaces fields fs).map Prod.fst = writtenFields fields ∧
      ∀ d ∈ fieldPlaces fields fs, ∃ name pool p, draw mapping d.1 name pool = .ok (d.2, p) := by
  match fields with
  | [] =>
    obtain ⟨rfl, -⟩ := drawEach_nil.1 h
    exact ⟨rfl, List.forall_mem_nil _⟩
  | ⟨field, t⟩ :: fields =>
    obtain ⟨s, p', rest, hs, hrest, rfl⟩ := drawEach_cons.1 h
    obtain ⟨hwritten, hdrawn⟩ := places_draw t hs
    obtain ⟨hwrittenRest, hdrawnRest⟩ := fieldPlaces_drawEach fields hrest
    rw [fieldPlaces, writtenFields, List.map_append, hwritten, hwrittenRest]
    exact ⟨rfl, List.forall_mem_append.2 ⟨hdrawn, hdrawnRest⟩⟩

end

/-! ## Fields -/

/-- A field with the schema of its type, and with the default that goes with the flag of the type,
which null itself has to have. -/
private theorem tellsNull_draw (h : draw mapping t name pool = .ok (s, p))
    (ht : t.isNull = true → t.isNullable = true) (field : String) :
    Field.TellsNull ⟨field, s, fieldDefault t.isNullable⟩ := by
  rcases shape_draw h with ⟨hnull, rfl⟩ | ⟨-, x, hx, rfl⟩
  · rw [ht hnull]
    exact ⟨iff_of_true rfl rfl, nofun, fun _ => .inl rfl⟩
  · cases t.isNullable with
    | true =>
      rw [Schema.wrapNull_true hx]
      exact ⟨iff_of_true rfl rfl, nofun, fun _ => .inr ⟨x, rfl⟩⟩
    | false =>
      have hadmits : x.admitsNull = false := Schema.admitsNull_of_isPlain hx
      rw [Schema.wrapNull_false]
      exact ⟨iff_of_false nofun (by simp [hadmits]), fun _ => rfl, fun h => by simp [hadmits] at h⟩

mutual

/-- All fields of all records in a drawn schema have the default that goes with their schema. -/
private theorem fields_draw (t : LogicalType) {name : String} {pool p : NamePool} {s : Schema}
    (h : draw mapping t name pool = .ok (s, p))
    (ht : ∀ u ∈ t.written, u.isNull = true → u.isNullable = true) {full : String} {n : Name}
    {doc : Option String} {fs : List (Field Schema)} (hrec : (full, .record n doc fs) ∈ s.types) :
    ∀ f ∈ fs, f.TellsNull := by
  match t with
  | .scalar nullable k =>
    obtain ⟨base, hbase, rfl⟩ := draw_scalar.1 h
    rw [Schema.types_wrapNull] at hrec
    rcases types_scalarSchema hbase with ⟨hnone, -⟩ | ⟨_, _, hone, -⟩
    · rw [hnone] at hrec
      cases hrec
    · rw [hone] at hrec
      cases List.mem_singleton.1 hrec
  | .array nullable e =>
    obtain ⟨items, hitems, rfl⟩ := draw_array.1 h
    rw [Schema.types_wrapNull, Schema.types] at hrec
    exact fields_draw e hitems (List.forall_mem_of_forall_mem_cons ht) hrec
  | .map nullable k v =>
    obtain ⟨-, values, hvalues, rfl⟩ := draw_map.1 h
    rw [Schema.types_wrapNull, Schema.types] at hrec
    exact fields_draw v hvalues (List.forall_mem_of_forall_mem_cons ht) hrec
  | .multiset nullable e =>
    obtain ⟨-, rfl, -⟩ := draw_multiset.1 h
    rw [Schema.types_wrapNull] at hrec
    cases hrec
  | .row nullable fields =>
    obtain ⟨-, fs', hfs, rfl⟩ := draw_row.1 h
    have hfields := List.forall_mem_of_forall_mem_cons ht
    rw [Schema.types_wrapNull, Schema.types] at hrec
    rcases List.mem_cons.1 hrec with heq | hrec
    · obtain ⟨-, -, -, rfl⟩ : full = _ ∧ n = _ ∧ doc = _ ∧ fs = fs' := by simpa using heq
      exact (fields_drawEach fields hfs hfields).1
    · exact (fields_drawEach fields hfs hfields).2 hrec

private theorem fields_drawEach (fields : List (RowField LogicalType)) {record : String}
    {pool p : NamePool} {fs : List (Field Schema)}
    (h : drawEach mapping record fields pool = .ok (fs, p))
    (ht : ∀ u ∈ writtenFields fields, u.isNull = true → u.isNullable = true) :
    (∀ f ∈ fs, f.TellsNull) ∧ ∀ {full n doc gs},
      (full, Schema.record n doc gs) ∈ Schema.fieldTypes fs → ∀ g ∈ gs, g.TellsNull := by
  match fields with
  | [] =>
    obtain ⟨rfl, -⟩ := drawEach_nil.1 h
    exact ⟨List.forall_mem_nil _, nofun⟩
  | ⟨field, t⟩ :: fields =>
    obtain ⟨s, p', rest, hs, hrest, rfl⟩ := drawEach_cons.1 h
    obtain ⟨htype, hfields⟩ := List.forall_mem_append.1 ht
    obtain ⟨hown, hinner⟩ := fields_drawEach fields hrest hfields
    have hself : t ∈ t.written := by cases t <;> exact List.mem_cons_self
    refine ⟨List.forall_mem_cons.2 ⟨tellsNull_draw hs (htype t hself) field, hown⟩, ?_⟩
    intro full n doc gs hrec
    rcases List.mem_append.1 hrec with hrec | hrec
    · exact fields_draw t hs htype hrec
    · exact hinner hrec

end

/-! ## The schema of a type -/

/-- Where null itself is nullable, the flag of a type shows at every depth of its schema: the types
that are written have their places in it, a place has a union exactly for a nullable type other
than null, with null in front of what is neither null nor a union, and the default of every field
of every record tells whether its schema admits null. -/
theorem nullability_toSchema (mapping : TimestampMapping) (t : LogicalType) (name : String)
    (s : Schema) (ht : ∀ u ∈ t.written, u.isNull = true → u.isNullable = true)
    (h : t.toSchema mapping name = .ok s) :
    (t.places s).head? = some (t, s) ∧ (t.places s).map Prod.fst = t.written ∧
      (∀ d ∈ t.places s, (∃ name pool p, draw mapping d.1 name pool = .ok (d.2, p)) ∧
        (d.2.isUnion = true ↔ d.1.isNullable = true ∧ d.1.isNull = false) ∧
        (d.2.isUnion = true →
          ∃ x, d.2 = .union [.null, x] ∧ x.isNull = false ∧ x.isUnion = false)) ∧
      ∀ full n doc fs, (full, .record n doc fs) ∈ s.types → ∀ f ∈ fs, f.TellsNull := by
  obtain ⟨p, hp⟩ := toSchema_eq_ok.1 h
  obtain ⟨hwritten, hdrawn⟩ := places_draw t hp
  refine ⟨head?_places t s, hwritten, fun d hd => ?_, fun _ _ _ _ hrec => fields_draw t hp ht hrec⟩
  obtain ⟨name, pool, p, hdraw⟩ := hdrawn d hd
  exact ⟨⟨name, pool, p, hdraw⟩, isUnion_draw_iff hdraw, union_draw hdraw⟩

/-- Null in a row, in an array and in a map, and a nullable row in a nullable array. -/
theorem nullability_toSchema_nulls :
    let null : LogicalType := .scalar true .null
    let rows : LogicalType := .array true (.row true [⟨"void", null⟩])
    let t : LogicalType := .row false [⟨"voids", .array false null⟩, ⟨"rows", rows⟩,
      ⟨"keyed", .map true (.scalar false .string) null⟩]
    let fields : List (Field Schema) := [⟨"voids", .array .null, none⟩,
      ⟨"rows", .union [.null, .array (.union [.null,
        .record ⟨"r_rows", none⟩ none [⟨"void", .null, some .null⟩]])], some .null⟩,
      ⟨"keyed", .union [.null, .map .null], some .null⟩]
    (∀ u ∈ t.written, u.isNull = true → u.isNullable = true) ∧
      t.toSchema .modern "r" = .ok (.record ⟨"r", none⟩ none fields) ∧
      ∀ f ∈ fields, f.TellsNull := by
  intro null rows t fields
  have ht : ∀ u ∈ t.written, u.isNull = true → u.isNullable = true := by
    simp [t, rows, null, written, writtenFields, isNull, isNullable]
  have hs : t.toSchema .modern "r" = .ok (.record ⟨"r", none⟩ none fields) := rfl
  exact ⟨ht, hs, (nullability_toSchema .modern t "r" _ ht hs).2.2.2 "r" _ none fields
    List.mem_cons_self⟩

end LogicalType
end Restorable
