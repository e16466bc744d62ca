-- SUMMARY: How the named types of a published schema are called.
import Restorable.Proofs.Schema.Published

/-!
# Names of published types

Names follow the path of fields from the root, by underscores, and a name that is taken gets
a suffix behind one more underscore. So all names grow out of the name of the root, which the
first named type gets, and as a pool hands out no name twice, every other one is longer.
-/
namespace Restorable

/-! ## Names that grow out of a name -/

/-- The name is the root, or longer by an underscore and more. -/
def NamePool.Extends (root name : String) : Prop :=
  name = root ∨ ∃ more, name = root ++ "_" ++ more

namespace NamePool

variable {root parent name : String}

theorem Extends.append (h : Extends root name) (more : String) :
    Extends root (name ++ "_" ++ more) := by
  rcases h with rfl | ⟨before, rfl⟩
  · exact .inr ⟨more, rfl⟩
  · exact .inr ⟨before ++ "_" ++ more, by simp only [String.append_assoc]⟩

theorem Extends.trans (h : Extends root parent) (h' : Extends parent name) :
    Extends root name := by
  rcases h' with rfl | ⟨more, rfl⟩
  · exact h
  · exact h.append more

theorem extends_claim (pool : NamePool) (candidate : String) :
    Extends candidate (pool.claim candidate).1 := by
  rcases claim_eq_or_suffix pool candidate with h | ⟨n, h⟩
  · exact .inl h
  · exact .inr ⟨Nat.repr n, h⟩

theorem extends_childName (parent field : String) : Extends parent (childName parent field) :=
  .inr ⟨field, rfl⟩

end NamePool

/-! ## Names of drawn types -/

def Schema.isEnum : Schema → Bool
  | .enum _ _ => true
  | _ => false

namespace LogicalType

open Steps Schema

variable {mapping : TimestampMapping}

/-- The named types stand under names that grow out of a candidate, and none is an enum. -/
def NamedFrom (candidate : String) (ds : List (String × Schema)) : Prop :=
  ∀ d ∈ ds, NamePool.Extends candidate d.1 ∧ d.2.isEnum = false

theorem NamedFrom.of_extends {parent child : String} {ds : List (String × Schema)}
    (h : NamePool.Extends parent child) (hds : NamedFrom child ds) : NamedFrom parent ds :=
  fun d hd => ⟨h.trans (hds d hd).1, (hds d hd).2⟩

mutual

/-- The names of drawn types grow out of the name that they are drawn under. -/
theorem namedFrom_draw (t : LogicalType) {name : String} {pool p : NamePool} {s : Schema}
    (h : draw mapping t name pool = .ok (s, p)) : NamedFrom name s.types := by
  match t with
  | .scalar nullable k =>
    obtain ⟨base, hbase, rfl⟩ := draw_scalar.1 h
    rw [types_wrapNull]
    rcases types_scalarSchema hbase with ⟨hnone, -⟩ | ⟨n, size, hone, -⟩
    · rw [hnone]
      exact List.forall_mem_nil _
    · rw [hone]
      exact List.forall_mem_singleton.2 ⟨NamePool.extends_claim pool name, rfl⟩
  | .array nullable e =>
    obtain ⟨items, hitems, rfl⟩ := draw_array.1 h
    simpa [types] using namedFrom_draw e hitems
  | .map nullable k v =>
    obtain ⟨-, values, hvalues, rfl⟩ := draw_map.1 h
    simpa [types] using namedFrom_draw v hvalues
  | .multiset nullable e =>
    obtain ⟨-, rfl, -⟩ := draw_multiset.1 h
    rw [types_wrapNull]
    exact List.forall_mem_nil _
  | .row nullable fields =>
    obtain ⟨-, fs, hfs, rfl⟩ := draw_row.1 h
    have hrecord := NamePool.extends_claim pool name
    rw [types_wrapNull, types, Name.full_ofFull]
    exact List.forall_mem_cons.2 ⟨⟨hrecord, rfl⟩, (namedFrom_drawEach fields hfs).of_extends hrecord⟩

theorem namedFrom_drawEach (fields : List (RowField LogicalType)) {record : String}
    {pool p : NamePool} {fs : List (Field Schema)}
    (h : drawEach mapping record fields pool = .ok (fs, p)) :
    NamedFrom record (fieldTypes fs) := by
  match fields with
  | [] =>
    obtain ⟨rfl, -⟩ := drawEach_nil.1 h
    exact List.forall_mem_nil _
  | ⟨field, t⟩ :: fields =>
    obtain ⟨s, p', rest, hs, hrest, rfl⟩ := drawEach_cons.1 h
    have hfield := (namedFrom_draw t hs).of_extends (NamePool.extends_childName record field)
    exact List.forall_mem_append.2 ⟨hfield, namedFrom_drawEach fields hrest⟩

end

/-- The first of the drawn types gets the next name. -/
private theorem head_draw (t : LogicalType) {name : String} {pool p : NamePool} {s : Schema}
    (h : draw mapping t name pool = .ok (s, p)) {d : String × Schema}
    (hd : s.types.head? = some d) : d.1 = (pool.claim name).1 := by
  match t with
  | .scalar nullable k =>
    obtain ⟨base, hbase, rfl⟩ := draw_scalar.1 h
    rw [types_wrapNull] at hd
    rcases types_scalarSchema hbase with ⟨hnone, -⟩ | ⟨n, size, hone, -⟩
    · rw [hnone] at hd
      cases hd
    · rw [hone] at hd
      cases hd
      rfl
  | .array nullable e =>
    obtain ⟨items, hitems, rfl⟩ := draw_array.1 h
    rw [types_wrapNull, types] at hd
    exact head_draw e hitems hd
  | .map nullable k v =>
    obtain ⟨-, values, hvalues, rfl⟩ := draw_map.1 h
    rw [types_wrapNull, types] at hd
    exact head_draw v hvalues hd
  | .multiset nullable e =>
    obtain ⟨-, rfl, -⟩ := draw_multiset.1 h
    rw [types_wrapNull] at hd
    cases hd
  | .row nullable fields =>
    obtain ⟨-, fs, -, rfl⟩ := draw_row.1 h
    rw [types_wrapNull, types, Name.full_ofFull] at hd
    cases hd
    rfl

/-- The named types of a published schema are records and fixed types with different full
names: the first has the name that was asked for, and every other one this name, an
underscore and more. -/
theorem names_toSchema (mapping : TimestampMapping) (t : LogicalType) (name : String) (s : Schema)
    (h : t.toSchema mapping name = .ok s) :
    (s.types.map Prod.fst).Nodup ∧ (∀ d ∈ s.types, d.2.isEnum = false) ∧
      (∀ d, s.types.head? = some d → d.1 = name) ∧
      ∀ d ∈ s.types.tail, ∃ more, d.1 = name ++ "_" ++ more := by
  obtain ⟨p, hp⟩ := toSchema_eq_ok.1 h
  have hnodup : (s.types.map Prod.fst).Nodup := (handsOut_draw t hp).nodup_of_empty
  have hnamed : NamedFrom name s.types := namedFrom_draw t hp
  have hhead : ∀ d, s.types.head? = some d → d.1 = name := fun d hd => head_draw t hp hd
  refine ⟨hnodup, fun d hd => (hnamed d hd).2, hhead, ?_⟩
  cases htypes : s.types with
  | nil => exact List.forall_mem_nil _
  | cons first rest =>
    rw [htypes] at hnodup hnamed hhead
    intro d hd
    have hfirst : first.1 = name := hhead first rfl
    obtain ⟨hnew, -⟩ := List.nodup_cons.1 hnodup
    -- As no name comes twice, no later name can be the name of the root.
    rcases (hnamed d (List.mem_cons_of_mem first hd)).1 with hsame | hlonger
    · exact absurd (List.mem_map.2 ⟨d, hd, hsame.trans hfirst.symm⟩) hnew
    · exact hlonger

/-- A suffix for a field name that collides with a path, and one that looks like a suffix. -/
theorem names_toSchema_collision :
    let t : LogicalType := .row false [
      ⟨"a", .row false [⟨"b", .scalar false (.binary (some 8))⟩]⟩,
      ⟨"a_b", .scalar false (.binary (some 4))⟩,
      ⟨"a_b_2", .array true (.row true [])⟩]
    ∃ s, t.toSchema .modern "shop.R" = .ok s ∧ (s.types.map Prod.fst).Nodup ∧
      s.types.map Prod.fst =
        ["shop.R", "shop.R_a", "shop.R_a_b", "shop.R_a_b_2", "shop.R_a_b_2_2"] := by
  intro t
  let s : Schema := .record ⟨"R", some "shop"⟩ none [
    ⟨"a", .record ⟨"R_a", some "shop"⟩ none [
      ⟨"b", .fixed ⟨"R_a_b", some "shop"⟩ 8 none, none⟩], none⟩,
    ⟨"a_b", .fixed ⟨"R_a_b_2", some "shop"⟩ 4 none, none⟩,
    ⟨"a_b_2", .union [.null, .array (.union [.null,
      .record ⟨"R_a_b_2_2", some "shop"⟩ none []])], some .null⟩]
  have hs : t.toSchema .modern "shop.R" = .ok s := rfl
  exact ⟨s, hs, (names_toSchema .modern t "shop.R" s hs).1, rfl⟩

end LogicalType
end Restorable
