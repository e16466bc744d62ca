-- SUMMARY: The schema of a logical type is legal, names no type twice, and is read back.
import Restorable.Proofs.Logical.Exported
import Restorable.Proofs.Schema.ReadBack

/-!
# Published schemas

The schema that is drawn for a logical type is written to a document, and whoever reads
the document gets the schema. This asks of the type only what documents ask of names and
sizes: all derived names are then definable, in the namespace of the root.
-/
namespace Restorable
namespace Schema

/-! ## Adding null -/

@[simp] theorem types_wrapNull (s : Schema) (nullable : Bool) :
    (s.wrapNull nullable).types = s.types := by
  unfold wrapNull
  split
  · rfl
  · simp [types, memberTypes]

/-- A legal type has another key than null, as no definition may take the word. -/
private theorem memberKey_ne_null {s : Schema} {space : Option String} {around : List String}
    (h : s.Legal space around) (hs : s.isPlain = true) : s.memberKey ≠ "null" := by
  have hname : ∀ n : Name, n.Writable space → n.full ≠ "null" := by
    intro n hn heq
    apply hn.definable.2
    rw [heq]
    decide
  cases s with
  | fixed n size a => exact hname n h.1
  | enum n symbols => exact hname n h
  | record n doc fs => exact hname n h.1
  | ref n => exact hname n h.1
  | null => cases hs
  | union ss => cases hs
  | _ => simp [memberKey, name?, typeName]

private theorem legal_wrapNull {s : Schema} {space : Option String} {around : List String}
    (h : s.Legal space around) (hs : s.isPlain = true) (nullable : Bool) :
    (s.wrapNull nullable).Legal space around := by
  cases nullable with
  | false =>
    simpa using h
  | true =>
    rw [wrapNull_true hs]
    refine ⟨List.cons_ne_nil _ _, ?_, ?_, trivial, h, trivial⟩
    · intro t ht
      simp only [List.mem_cons, List.not_mem_nil, or_false] at ht
      rcases ht with rfl | rfl
      · rfl
      · cases t <;> first | rfl | cases hs
    · have hkey := memberKey_ne_null h hs
      have hnull : Schema.null.memberKey = "null" := rfl
      simp only [List.map_cons, List.map_nil, List.nodup_cons, List.mem_singleton,
        List.not_mem_nil, not_false_eq_true, List.nodup_nil, and_true, hnull]
      exact Ne.symm hkey

end Schema

namespace LogicalType

open Steps Schema

variable {mapping : TimestampMapping}

/-! ## Types whose schemas fit into documents -/

/-- The greatest size of a fixed type in a document. -/
def maxFixedSize : UInt64 := 2147483647

mutual

/-- The names of fields are identifiers and the lengths of byte strings are sizes of
fixed types, at every depth. -/
def Portable : LogicalType → Prop
  | .scalar _ (.binary (some length)) => length ≤ maxFixedSize
  | .scalar _ _ => True
  | .array _ e | .multiset _ e => e.Portable
  | .map _ k v => k.Portable ∧ v.Portable
  | .row _ fields => FieldsPortable fields

def FieldsPortable : List (RowField LogicalType) → Prop
  | [] => True
  | ⟨name, t⟩ :: fields =>
    Name.isIdentifier name.toList = true ∧ t.Portable ∧ FieldsPortable fields

end

/-! ## Legality -/

private theorem sound_of_checkDecimal {precision scale : UInt32}
    (h : checkDecimal precision scale = .ok ()) : (Refinement.decimal precision scale).Sound := by
  obtain ⟨hone, -, hscale⟩ := checkDecimal_eq_ok.1 h
  exact ⟨UInt32.lt_of_lt_of_le (by decide) hone, hscale⟩

private theorem fits_timestampRefinement {zoned micros : Bool} {a : Refinement}
    (h : timestampRefinement mapping zoned micros = some a) : Refinement.Fits (some a) .long := by
  rw [Refinement.fits_some]
  cases mapping <;> cases zoned <;> cases micros <;> cases h <;> exact ⟨rfl, trivial⟩

/-- The schema of a scalar is legal in every namespace that its name is in. -/
private theorem legal_scalarSchema {t : LogicalType} {name : String} {k : Scalar} {nullable : Bool}
    {pool p : NamePool} {s : Schema} {space : Option String} (around : List String)
    (hn : Name.Definable name) (hspace : (Name.ofFull name).space = none → space = none)
    (hk : (LogicalType.scalar nullable k).Portable)
    (h : scalarSchema mapping t name k pool = .ok (s, p)) : s.Legal space around := by
  cases k with
  | integer width =>
    cases width <;> obtain ⟨rfl, -⟩ := pure_eq_ok.1 h <;> exact Refinement.fits_none _
  | string => obtain ⟨rfl, -⟩ := pure_eq_ok.1 h; exact Refinement.fits_none _
  | binary length =>
    cases length with
    | none => obtain ⟨rfl, -⟩ := pure_eq_ok.1 h; exact Refinement.fits_none _
    | some size =>
      obtain ⟨full, p', hdraw, h⟩ := bind_eq_ok.1 h
      obtain ⟨rfl, -⟩ := pure_eq_ok.1 h
      obtain ⟨rfl, -⟩ := drawName_eq_ok.1 hdraw
      obtain ⟨hdef, hsame⟩ := NamePool.definable_claim pool hn
      refine ⟨Name.writable_ofFull hdef (hsame ▸ hspace), Refinement.fits_none _, ?_, rfl⟩
      have hle : size ≤ maxFixedSize := hk
      rw [UInt64.le_iff_toNat_le] at hle
      rw [UInt64.lt_iff_toNat_lt]
      exact Nat.lt_succ_of_le hle
  | decimal precision scale =>
    obtain ⟨_, _, hc, h⟩ := bind_eq_ok.1 h
    obtain ⟨rfl, -⟩ := pure_eq_ok.1 h
    have hcheck := checked_eq_ok.1 (lift_eq_ok.1 hc).1
    exact Refinement.fits_some.2 ⟨rfl, sound_of_checkDecimal hcheck⟩
  | date =>
    obtain ⟨rfl, -⟩ := pure_eq_ok.1 h
    exact Refinement.fits_some.2 ⟨rfl, trivial⟩
  | time precision =>
    rcases annotateTime_eq_ok.1 (lift_eq_ok.1 h).1 with ⟨-, rfl⟩ | ⟨-, -, -, rfl⟩
    all_goals exact Refinement.fits_some.2 ⟨rfl, trivial⟩
  | timestamp precision zoned =>
    obtain ⟨micros, a, ha, -, rfl⟩ := annotateTimestamp_eq_ok.1 (lift_eq_ok.1 h).1
    exact fits_timestampRefinement ha
  | raw _ => exact (throw_eq_ok.1 h).elim
  | _ => obtain ⟨rfl, -⟩ := pure_eq_ok.1 h; exact trivial

private theorem identifier_of_portable {fields : List (RowField LogicalType)}
    (h : FieldsPortable fields) :
    ∀ name ∈ fields.map RowField.name, Name.isIdentifier name.toList = true := by
  induction fields with
  | nil => simp
  | cons f fields ih =>
    obtain ⟨field, t⟩ := f
    obtain ⟨hfield, -, hfields⟩ := h
    rw [List.map_cons, List.forall_mem_cons]
    exact ⟨hfield, ih hfields⟩

mutual

/-- A schema drawn for a portable type is legal in every namespace that its name is in. -/
theorem legal_draw (t : LogicalType) {name : String} {pool p : NamePool} {s : Schema}
    {space : Option String} (around : List String) (hn : Name.Definable name)
    (hspace : (Name.ofFull name).space = none → space = none) (ht : t.Portable)
    (h : draw mapping t name pool = .ok (s, p)) : s.Legal space around := by
  match t with
  | .scalar nullable k =>
    obtain ⟨base, hbase, rfl⟩ := draw_scalar.1 h
    have hlegal := legal_scalarSchema around hn hspace ht hbase
    by_cases hk : k = .null
    · subst hk
      obtain ⟨rfl, -⟩ := pure_eq_ok.1 hbase
      simpa using hlegal
    · exact legal_wrapNull hlegal (toLogical_scalarSchema hk hbase).1 nullable
  | .array nullable e =>
    obtain ⟨items, hitems, rfl⟩ := draw_array.1 h
    have hlegal := legal_draw e around hn hspace ht hitems
    exact legal_wrapNull (s := .array items) hlegal rfl nullable
  | .map nullable k v =>
    obtain ⟨-, values, hvalues, rfl⟩ := draw_map.1 h
    have hlegal := legal_draw v around hn hspace ht.2 hvalues
    exact legal_wrapNull (s := .map values) hlegal rfl nullable
  | .multiset nullable e =>
    obtain ⟨-, rfl, -⟩ := draw_multiset.1 h
    exact legal_wrapNull (s := .map (.int none)) (Refinement.fits_none .int) rfl nullable
  | .row nullable fields =>
    obtain ⟨hc, fs, hfs, rfl⟩ := draw_row.1 h
    obtain ⟨hdef, hsame⟩ := NamePool.definable_claim pool hn
    have hnames := map_name_drawEach hfs
    apply legal_wrapNull _ rfl
    refine ⟨Name.writable_ofFull hdef (hsame ▸ hspace), ?_, ?_, ?_⟩
    · intro f hf
      apply identifier_of_portable ht
      rw [← hnames]
      exact List.mem_map_of_mem hf
    · rw [hnames]
      exact checkFields_eq_ok.1 hc
    · exact fieldsLegal_drawEach fields _ hdef ht hfs

/-- So are the fields drawn for a row, in the namespace of their record. -/
theorem fieldsLegal_drawEach (fields : List (RowField LogicalType)) {record : String}
    {pool p : NamePool} {fs : List (Field Schema)} (around : List String)
    (hn : Name.Definable record) (hf : FieldsPortable fields)
    (h : drawEach mapping record fields pool = .ok (fs, p)) :
    FieldsLegal (Name.ofFull record).space around fs := by
  match fields with
  | [] =>
    obtain ⟨rfl, -⟩ := drawEach_nil.1 h
    trivial
  | ⟨field, t⟩ :: fields =>
    obtain ⟨s, p', rest, hs, hrest, rfl⟩ := drawEach_cons.1 h
    obtain ⟨hfield, ht, hfields⟩ := hf
    obtain ⟨hdef, hsame⟩ := NamePool.definable_childName hn hfield
    refine ⟨legal_draw t around hdef ?_ ht hs, fieldsLegal_drawEach fields around hn hfields hrest⟩
    intro hnone
    rw [← hsame]
    exact hnone

end

/-! ## Names -/

/-- The schema of a scalar has no named type, or a fixed one under the next name. -/
theorem types_scalarSchema {t : LogicalType} {name : String} {k : Scalar} {pool p : NamePool}
    {s : Schema} (h : scalarSchema mapping t name k pool = .ok (s, p)) :
    s.types = [] ∧ pool = p ∨ ∃ n size, s.types = [((pool.claim name).1, .fixed n size none)] ∧
      (pool.claim name).2 = p := by
  cases k with
  | integer width => cases width <;> obtain ⟨rfl, rfl⟩ := pure_eq_ok.1 h <;> exact .inl ⟨rfl, rfl⟩
  | binary length =>
    cases length with
    | none => obtain ⟨rfl, rfl⟩ := pure_eq_ok.1 h; exact .inl ⟨rfl, rfl⟩
    | some size =>
      obtain ⟨full, p', hdraw, h⟩ := bind_eq_ok.1 h
      obtain ⟨rfl, rfl⟩ := pure_eq_ok.1 h
      obtain ⟨rfl, rfl⟩ := drawName_eq_ok.1 hdraw
      refine .inr ⟨.ofFull (pool.claim name).1, size, ?_, rfl⟩
      simp [types]
  | decimal precision scale =>
    obtain ⟨_, _, hc, h⟩ := bind_eq_ok.1 h
    obtain ⟨rfl, rfl⟩ := pure_eq_ok.1 h
    exact .inl ⟨rfl, (lift_eq_ok.1 hc).2⟩
  | time precision =>
    obtain ⟨htime, rfl⟩ := lift_eq_ok.1 h
    rcases annotateTime_eq_ok.1 htime with ⟨-, rfl⟩ | ⟨-, -, -, rfl⟩
    all_goals exact .inl ⟨rfl, rfl⟩
  | timestamp precision zoned =>
    obtain ⟨htime, rfl⟩ := lift_eq_ok.1 h
    obtain ⟨micros, a, -, -, rfl⟩ := annotateTimestamp_eq_ok.1 htime
    exact .inl ⟨rfl, rfl⟩
  | raw _ => exact (throw_eq_ok.1 h).elim
  | _ => obtain ⟨rfl, rfl⟩ := pure_eq_ok.1 h; exact .inl ⟨rfl, rfl⟩

private theorem handsOut_scalarSchema {t : LogicalType} {name : String} {k : Scalar}
    {pool p : NamePool} {s : Schema} (h : scalarSchema mapping t name k pool = .ok (s, p)) :
    pool.HandsOut (s.types.map Prod.fst) p := by
  rcases types_scalarSchema h with ⟨hnone, rfl⟩ | ⟨n, size, hone, rfl⟩
  · rw [hnone]
    exact NamePool.handsOut_nil pool
  · rw [hone]
    exact NamePool.handsOut_claim pool name

mutual

/-- Drawing a schema hands out the names of its types, in document order. -/
theorem handsOut_draw (t : LogicalType) {name : String} {pool p : NamePool} {s : Schema}
    (h : draw mapping t name pool = .ok (s, p)) : pool.HandsOut (s.types.map Prod.fst) p := by
  match t with
  | .scalar nullable k =>
    obtain ⟨base, hbase, rfl⟩ := draw_scalar.1 h
    simpa using handsOut_scalarSchema hbase
  | .array nullable e =>
    obtain ⟨items, hitems, rfl⟩ := draw_array.1 h
    simpa [types] using handsOut_draw e hitems
  | .map nullable k v =>
    obtain ⟨-, values, hvalues, rfl⟩ := draw_map.1 h
    simpa [types] using handsOut_draw v hvalues
  | .multiset nullable e =>
    obtain ⟨-, rfl, rfl⟩ := draw_multiset.1 h
    simpa [types] using NamePool.handsOut_nil pool
  | .row nullable fields =>
    obtain ⟨-, fs, hfs, rfl⟩ := draw_row.1 h
    simpa [types] using (NamePool.handsOut_claim pool name).append (handsOut_drawEach fields hfs)

theorem handsOut_drawEach (fields : List (RowField LogicalType)) {record : String}
    {pool p : NamePool} {fs : List (Field Schema)}
    (h : drawEach mapping record fields pool = .ok (fs, p)) :
    pool.HandsOut ((fieldTypes fs).map Prod.fst) p := by
  match fields with
  | [] =>
    obtain ⟨rfl, rfl⟩ := drawEach_nil.1 h
    exact NamePool.handsOut_nil pool
  | ⟨field, t⟩ :: fields =>
    obtain ⟨s, p', rest, hs, hrest, rfl⟩ := drawEach_cons.1 h
    simp only [fieldTypes, List.map_append]
    exact (handsOut_draw t hs).append (handsOut_drawEach fields hrest)

end

/-! ## Reading the document -/

/-- The document of a portable type, under a definable name, is read as the schema that
was written. -/
theorem ofJson?_toSchema (mapping : TimestampMapping) (t : LogicalType) (name : String)
    (s : Schema) (hn : Name.Definable name) (ht : t.Portable)
    (h : t.toSchema mapping name = .ok s) : Schema.ofJson? s.toJson = .ok s := by
  obtain ⟨p, hp⟩ := toSchema_eq_ok.1 h
  have hlegal : s.Legal none [] := legal_draw t [] hn (fun _ => rfl) ht hp
  have hnames : (s.types.map Prod.fst).Nodup := (handsOut_draw t hp).nodup_of_empty
  exact ofJson?_toJson hlegal ⟨_, agrees_lookup hnames⟩

/-- Two fields whose derived names collide, under a root inside a namespace. -/
theorem ofJson?_toSchema_collision :
    let t : LogicalType := .row true [
      ⟨"a_b", .scalar false (.binary (some 4))⟩,
      ⟨"a", .row false [
        ⟨"b", .scalar true (.binary (some 8))⟩,
        ⟨"price", .scalar true (.decimal 10 2)⟩]⟩]
    let s : Schema := .union [.null, .record ⟨"R", some "shop"⟩ none [
      ⟨"a_b", .fixed ⟨"R_a_b", some "shop"⟩ 4 none, none⟩,
      ⟨"a", .record ⟨"R_a", some "shop"⟩ none [
        ⟨"b", .union [.null, .fixed ⟨"R_a_b_2", some "shop"⟩ 8 none], some .null⟩,
        ⟨"price", .union [.null, .bytes (some (.decimal 10 2))], some .null⟩], none⟩]]
    Name.Definable "shop.R" ∧ t.Portable ∧ t.toSchema .legacy "shop.R" = .ok s ∧
      Schema.ofJson? s.toJson = .ok s := by
  intro t s
  have hn : Name.Definable "shop.R" := ⟨by decide, by decide⟩
  have hfour : (4 : UInt64) ≤ maxFixedSize := by decide
  have height : (8 : UInt64) ≤ maxFixedSize := by decide
  have ht : t.Portable :=
    ⟨by decide, hfour, by decide, ⟨by decide, height, by decide, trivial, trivial⟩, trivial⟩
  have hs : t.toSchema .legacy "shop.R" = .ok s := rfl
  exact ⟨hn, ht, hs, ofJson?_toSchema .legacy t "shop.R" s hn ht hs⟩

end LogicalType
end Restorable
