-- SUMMARY: What is read as a logical type is valid, and exactly the valid types are read back.
import Restorable.Logical.Json
import Restorable.Proofs.Json.Accessors
import Restorable.Proofs.Schema.Drawn

/-!
# Decoded types

A type is valid when all its decimals, rows and nulls keep their rules, at any depth. The
reader checks each rule where it reads the kind it is about, so whatever it accepts is valid;
and it reads a written type back exactly when the type is valid, in the order of writing and
with the keys of all objects sorted.
-/
namespace Restorable

open Steps

/-! ## Valid types -/

/-- Decimals have 1 to 38 digits, with no more of them behind the point. -/
def Scalar.Valid : Scalar → Prop
  | .decimal precision scale => 1 ≤ precision ∧ precision ≤ 38 ∧ scale ≤ precision
  | _ => True

namespace LogicalType

mutual

/-- At every depth decimals are in range, rows have different field names, and null is
nullable. -/
def Valid : LogicalType → Prop
  | .scalar nullable k => k.Valid ∧ (k = .null → nullable = true)
  | .array _ e => e.Valid
  | .map _ k v => k.Valid ∧ v.Valid
  | .multiset _ e => e.Valid
  | .row _ fields => (fields.map RowField.name).Nodup ∧ FieldsValid fields

def FieldsValid : List (RowField LogicalType) → Prop
  | [] => True
  | ⟨_, t⟩ :: fields => t.Valid ∧ FieldsValid fields

end

/-! ## The rules -/

@[simp] theorem checkScalar_eq_ok {k : Scalar} : checkScalar k = .ok () ↔ k.Valid := by
  cases k with
  | decimal precision scale => exact checkDecimal_eq_ok
  | _ => exact iff_of_true rfl trivial

section Steps

variable {α : Type}

@[simp] theorem required_eq_ok {o : Option α} {x : α} : required o = .ok x ↔ o = some x := by
  cases o <;> simp [required]

@[simp] theorem lawful_eq_ok {rule : Except TypeFault α} {x : α} :
    lawful rule = .ok x ↔ rule = .ok x := by
  cases rule <;> simp [lawful]

end Steps

private theorem row?_eq_ok {fields : List (RowField LogicalType)} {t : LogicalType} :
    row? fields = .ok t ↔ (fields.map RowField.name).Nodup ∧ .row false fields = t := by
  unfold row?
  rw [exceptBind_eq_ok, ← checkFields_eq_ok]
  constructor
  · rintro ⟨⟨⟩, hcheck, ht⟩
    exact ⟨hcheck, Except.ok.inj ht⟩
  · rintro ⟨hcheck, rfl⟩
    exact ⟨(), hcheck, rfl⟩

/-! ## An object by its attributes -/

/-- The type that the attributes of an object describe for a kind, before its flag. -/
inductive Describes (attrs : List (String × Json)) (word : String) : LogicalType → Prop
  | array {parts : List (String × LogicalType)} {e : LogicalType} (hword : word = "array")
      (hparts : readParts ["element"] attrs = .ok parts) (he : parts.lookup "element" = some e) :
      Describes attrs word (.array false e)
  | map {parts : List (String × LogicalType)} {k v : LogicalType} (hword : word = "map")
      (hparts : readParts ["key", "value"] attrs = .ok parts) (hk : parts.lookup "key" = some k)
      (hv : parts.lookup "value" = some v) : Describes attrs word (.map false k v)
  | multiset {parts : List (String × LogicalType)} {e : LogicalType} (hword : word = "multiset")
      (hparts : readParts ["element"] attrs = .ok parts) (he : parts.lookup "element" = some e) :
      Describes attrs word (.multiset false e)
  | row {fields : List (RowField LogicalType)} (hword : word = "row")
      (hfields : readFieldsAttr attrs = .ok fields)
      (hnames : (fields.map RowField.name).Nodup) : Describes attrs word (.row false fields)
  | scalar {k : Scalar} (hkind : scalar? word attrs = some k) (hk : k.Valid) :
      Describes attrs word (.scalar false k)

variable {attrs : List (String × Json)} {s t : LogicalType} {nullable : Bool} {word : String}

/-- An object is read as the type that its attributes describe for its kind, with its flag. -/
private theorem describes_of_read (h : read (.obj attrs) = .ok t) :
    ∃ nullable word s, (Json.find? "nullable" attrs).bind Json.bool? = some nullable ∧
      (Json.find? "kind" attrs).bind kind? = some word ∧ Describes attrs word s ∧
      s.withNullability nullable = t := by
  rw [read] at h
  simp only [exceptBind_eq_ok, required_eq_ok] at h
  obtain ⟨nullable, hnullable, word, hword, h⟩ := h
  split at h
  all_goals simp only [exceptBind_eq_ok, required_eq_ok, lawful_eq_ok] at h
  · obtain ⟨parts, hparts, e, he, ht⟩ := h
    exact ⟨nullable, _, _, hnullable, hword, .array rfl hparts he, Except.ok.inj ht⟩
  · obtain ⟨parts, hparts, k, hk, v, hv, ht⟩ := h
    exact ⟨nullable, _, _, hnullable, hword, .map rfl hparts hk hv, Except.ok.inj ht⟩
  · obtain ⟨parts, hparts, e, he, ht⟩ := h
    exact ⟨nullable, _, _, hnullable, hword, .multiset rfl hparts he, Except.ok.inj ht⟩
  · obtain ⟨fields, hfields, s, hrow, ht⟩ := h
    obtain ⟨hnames, rfl⟩ := row?_eq_ok.1 hrow
    exact ⟨nullable, _, _, hnullable, hword, .row rfl hfields hnames, Except.ok.inj ht⟩
  · obtain ⟨k, hkind, u, hcheck, ht⟩ := h
    exact ⟨nullable, _, _, hnullable, hword, .scalar hkind (checkScalar_eq_ok.1 hcheck),
      Except.ok.inj ht⟩

private theorem read_of_describes
    (hnullable : (Json.find? "nullable" attrs).bind Json.bool? = some nullable)
    (hword : (Json.find? "kind" attrs).bind kind? = some word) (h : Describes attrs word s) :
    read (.obj attrs) = .ok (s.withNullability nullable) := by
  rw [read]
  simp only [exceptBind_eq_ok, required_eq_ok]
  refine ⟨nullable, hnullable, word, hword, ?_⟩
  cases h with
  | array h hparts he =>
    subst h
    simp only [exceptBind_eq_ok, required_eq_ok]
    exact ⟨_, hparts, _, he, rfl⟩
  | map h hparts hk hv =>
    subst h
    simp only [exceptBind_eq_ok, required_eq_ok]
    exact ⟨_, hparts, _, hk, _, hv, rfl⟩
  | multiset h hparts he =>
    subst h
    simp only [exceptBind_eq_ok, required_eq_ok]
    exact ⟨_, hparts, _, he, rfl⟩
  | row h hfields hnames =>
    subst h
    simp only [exceptBind_eq_ok, lawful_eq_ok]
    exact ⟨_, hfields, _, row?_eq_ok.2 ⟨hnames, rfl⟩, rfl⟩
  | scalar hkind hk =>
    split
    case h_5 =>
      simp only [exceptBind_eq_ok, required_eq_ok, lawful_eq_ok]
      exact ⟨_, hkind, (), checkScalar_eq_ok.2 hk, rfl⟩
    all_goals cases hkind

/-! ## What is read is valid -/

private theorem valid_of_lookup {parts : List (String × LogicalType)} {key : String}
    (hparts : ∀ p ∈ parts, p.2.Valid) (h : parts.lookup key = some t) : t.Valid := by
  obtain ⟨before, after, rfl, -⟩ := List.lookup_eq_some_iff.1 h
  exact hparts (key, t) (List.mem_append_right _ List.mem_cons_self)

/-- Once flagged, what is described is valid if the types in the attributes are; null needs the
flag for that. -/
theorem Describes.valid (nullable : Bool) (h : Describes attrs word s)
    (hparts : ∀ {keys parts}, readParts keys attrs = .ok parts → ∀ p ∈ parts, p.2.Valid)
    (hfields : ∀ {fields}, readFieldsAttr attrs = .ok fields → FieldsValid fields) :
    (s.withNullability nullable).Valid := by
  cases h with
  | @array _ e _ hread he =>
    have hvalid : e.Valid := valid_of_lookup (hparts hread) he
    exact hvalid
  | map _ hread hk hv =>
    exact ⟨valid_of_lookup (hparts hread) hk, valid_of_lookup (hparts hread) hv⟩
  | @multiset _ e _ hread he =>
    have hvalid : e.Valid := valid_of_lookup (hparts hread) he
    exact hvalid
  | row _ hread hnames => exact ⟨hnames, hfields hread⟩
  | scalar hkind hk =>
    refine ⟨hk, ?_⟩
    rintro rfl
    exact Bool.or_true nullable

private theorem readFieldsAttr_cons_of_ne {k : String} (hk : k ≠ "fields") (v : Json) :
    readFieldsAttr ((k, v) :: attrs) = readFieldsAttr attrs := by
  cases v <;> simp only [readFieldsAttr, if_neg hk]

mutual

/-- Whatever is read as a type is valid. -/
theorem valid_of_read : (v : Json) → {t : LogicalType} → read v = .ok t → t.Valid
  | .obj attrs, t, h => by
    obtain ⟨nullable, word, s, -, -, hs, rfl⟩ := describes_of_read h
    exact hs.valid nullable (valid_of_readParts attrs) (valid_of_readFieldsAttr attrs)
  | .null, _, h | .bool _, _, h | .num _, _, h | .str _, _, h | .arr _, _, h => by cases h

theorem valid_of_readParts : (attrs : List (String × Json)) → {keys : List String} →
    {parts : List (String × LogicalType)} → readParts keys attrs = .ok parts →
    ∀ p ∈ parts, p.2.Valid
  | [], _, _, h => by
    obtain rfl := Except.ok.inj h
    simp
  | (k, v) :: attrs, keys, parts, h => by
    rw [readParts] at h
    split at h
    · simp only [exceptBind_eq_ok] at h
      obtain ⟨t, ht, rest, hrest, hparts⟩ := h
      obtain rfl := Except.ok.inj hparts
      exact List.forall_mem_cons.2 ⟨valid_of_read v ht, valid_of_readParts attrs hrest⟩
    · exact valid_of_readParts attrs h

theorem valid_of_readFieldsAttr : (attrs : List (String × Json)) →
    {fields : List (RowField LogicalType)} → readFieldsAttr attrs = .ok fields →
    FieldsValid fields
  | [], _, h => by cases h
  | (k, v) :: attrs, fields, h => by
    by_cases hk : k = "fields"
    · subst hk
      cases v with
      | arr items => exact valid_of_readFields items h
      | _ => cases h
    · rw [readFieldsAttr_cons_of_ne hk] at h
      exact valid_of_readFieldsAttr attrs h

theorem valid_of_readFields : (items : List Json) → {fields : List (RowField LogicalType)} →
    readFields items = .ok fields → FieldsValid fields
  | [], _, h => by
    obtain rfl := Except.ok.inj h
    trivial
  | v :: items, fields, h => by
    simp only [readFields, exceptBind_eq_ok] at h
    obtain ⟨field, hfield, rest, hrest, hfields⟩ := h
    obtain rfl := Except.ok.inj hfields
    exact ⟨valid_of_readField v hfield, valid_of_readFields items hrest⟩

theorem valid_of_readField : (v : Json) → {field : RowField LogicalType} →
    readField v = .ok field → field.type.Valid
  | .obj attrs, field, h => by
    simp only [readField, exceptBind_eq_ok, required_eq_ok] at h
    obtain ⟨parts, hparts, name, hname, t, ht, hfield⟩ := h
    obtain rfl := Except.ok.inj hfield
    exact valid_of_readFieldParts attrs hparts ht
  | .arr (.str name :: v :: rest), field, h => by
    simp only [readField, exceptBind_eq_ok] at h
    obtain ⟨t, ht, hfield⟩ := h
    split at hfield
    · obtain rfl := Except.ok.inj hfield
      exact valid_of_read v ht
    · cases hfield
  | .null, _, h | .bool _, _, h | .num _, _, h | .str _, _, h | .arr [], _, h
  | .arr [.str _], _, h | .arr (.null :: _), _, h | .arr (.bool _ :: _), _, h
  | .arr (.num _ :: _), _, h | .arr (.arr _ :: _), _, h | .arr (.obj _ :: _), _, h => by cases h

theorem valid_of_readFieldParts : (attrs : List (String × Json)) →
    {parts : Option String × Option LogicalType} → readFieldParts attrs = .ok parts →
    ∀ {t}, parts.2 = some t → t.Valid
  | [], _, h, _, ht => by
    obtain rfl := Except.ok.inj h
    cases ht
  | (k, v) :: attrs, parts, h, t, ht => by
    rw [readFieldParts] at h
    split at h
    · simp only [exceptBind_eq_ok] at h
      obtain ⟨name, -, rest, hrest, hparts⟩ := h
      obtain rfl := Except.ok.inj hparts
      exact valid_of_readFieldParts attrs hrest ht
    · split at h
      · simp only [exceptBind_eq_ok] at h
        obtain ⟨s, hs, rest, -, hparts⟩ := h
        obtain rfl := Except.ok.inj hparts
        obtain rfl := Option.some.inj ht
        exact valid_of_read v hs
      · exact valid_of_readFieldParts attrs h ht

end

/-! ## What is valid is read back -/

/-- The kind that a type is written with. -/
def kindWord : LogicalType → String
  | .scalar _ k => k.word
  | .array _ _ => "array"
  | .map _ _ _ => "map"
  | .multiset _ _ => "multiset"
  | .row _ _ => "row"

@[simp] theorem kind?_kindWord (t : LogicalType) : kind? (.str t.kindWord) = some t.kindWord := by
  refine if_pos ?_
  cases t with
  | scalar _ k => cases k <;> simp [kindWord, Scalar.word, kindWords]
  | _ => simp [kindWord, kindWords]

private theorem withNullability_setNullable (h : t.Valid) :
    (t.setNullable false).withNullability t.isNullable = t := by
  cases t with
  | scalar n k =>
    cases k with
    | null =>
      obtain rfl : n = true := h.2 rfl
      rfl
    | _ => exact congrArg (LogicalType.scalar · _) (Bool.or_false n)
  | array n e => exact congrArg (LogicalType.array · e) (Bool.or_false n)
  | map n k v => exact congrArg (LogicalType.map · k v) (Bool.or_false n)
  | multiset n e => exact congrArg (LogicalType.multiset · e) (Bool.or_false n)
  | row n fs => exact congrArg (LogicalType.row · fs) (Bool.or_false n)

/-- Attributes that describe a valid type are read as the type. -/
theorem read_of_valid (h : t.Valid) (hkind : Json.find? "kind" attrs = some (.str t.kindWord))
    (hnullable : Json.find? "nullable" attrs = some (.bool t.isNullable))
    (hdescribes : Describes attrs t.kindWord (t.setNullable false)) :
    read (.obj attrs) = .ok t := by
  have hword : (Json.find? "kind" attrs).bind kind? = some t.kindWord := by
    rw [hkind]
    exact kind?_kindWord t
  have hflag : (Json.find? "nullable" attrs).bind Json.bool? = some t.isNullable := by
    rw [hnullable]
    rfl
  rw [read_of_describes hflag hword hdescribes, withNullability_setNullable h]

/-! ### Scalar kinds -/

section Scalars

variable {k : Scalar} {n : Bool}

/-- A scalar kind is read from any object that has its attributes. -/
private theorem scalar?_of_find?
    (h : ∀ key, key ≠ "nullable" → key ≠ "kind" → Json.find? key attrs = Json.find? key k.attrs) :
    scalar? k.word attrs = some k := by
  cases k with
  | integer width =>
    cases width <;>
      simp [scalar?, Scalar.word, h, Scalar.attrs, Json.find?, IntWidth.word, width?, variantWord?]
  | binary length =>
    have hfind : Json.find? "length" attrs = _ := h "length" (by decide) (by decide)
    have hlength : length? attrs = some length := by
      unfold length?
      rw [hfind]
      cases length with
      | none => rfl
      | some l => exact congrArg (Option.map some) (Json.uint64?_ofUInt64 l)
    simp [scalar?, Scalar.word, hlength]
  | decimal p s =>
    simp [scalar?, Scalar.word, h, Scalar.attrs, Json.find?]
  | time p => simp [scalar?, Scalar.word, h, Scalar.attrs, Json.find?]
  | timestamp p z =>
    simp [scalar?, Scalar.word, h, Scalar.attrs, Json.find?, Json.bool?]
  | raw name => simp [scalar?, Scalar.word, h, Scalar.attrs, Json.find?, Json.str?]
  | _ => rfl

private theorem find?_written {key : String} (hnullable : key ≠ "nullable") (hkind : key ≠ "kind") :
    Json.find? key (("nullable", .bool n) :: ("kind", .str k.word) :: k.attrs) =
      Json.find? key k.attrs := by
  rw [Json.find?, if_neg hnullable.symm, Json.find?, if_neg hkind.symm]

private theorem nodup_written :
    ((("nullable", .bool n) :: ("kind", .str k.word) :: k.attrs).map Prod.fst).Nodup := by
  cases k with
  | binary length => cases length <;> simp [Scalar.attrs]
  | _ => simp [Scalar.attrs]

private theorem map_sorted_attr (key : String) :
    (Json.find? key k.attrs).map Json.sorted = Json.find? key k.attrs := by
  apply Json.map_sorted_find?
  cases k with
  | binary length => cases length <;> simp [Scalar.attrs, Json.ofUInt64, Json.sorted]
  | _ => simp [Scalar.attrs, Json.ofUInt32, Json.sorted]

end Scalars

/-! ### Types -/

private theorem readParts_singleton (key : String) {v : Json} (h : read v = .ok t) :
    readParts [key] [(key, v)] = .ok [(key, t)] := by
  rw [readParts, if_pos List.mem_cons_self, h]
  rfl

private theorem readParts_pair {v w : Json} (hs : read v = .ok s) (ht : read w = .ok t) :
    readParts ["key", "value"] [("key", v), ("value", w)] = .ok [("key", s), ("value", t)] := by
  simp only [readParts, List.mem_cons, true_or, or_true, if_true, hs, ht]
  rfl

mutual

/-- A valid type is read back from what is written for it, in either order of the keys. -/
theorem read_toJson : (t : LogicalType) → t.Valid →
    read t.toJson = .ok t ∧ read t.toJson.sorted = .ok t
  | .scalar n k, h => by
    constructor
    · exact read_of_valid h rfl rfl (.scalar (scalar?_of_find? fun key => find?_written) h.1)
    · have hsorted : ∀ key, _ := Json.find?_sorted (@nodup_written k n)
      refine read_of_valid h (hsorted "kind") (hsorted "nullable") (.scalar ?_ h.1)
      refine scalar?_of_find? fun key hnullable hkind => ?_
      rw [hsorted, find?_written hnullable hkind, map_sorted_attr]
  | .array n e, h => by
    obtain ⟨he, hsorted⟩ := read_toJson e h
    constructor
    · exact read_of_valid h rfl rfl (.array rfl (readParts_singleton "element" he) rfl)
    · exact read_of_valid h rfl rfl (.array rfl (readParts_singleton "element" hsorted) rfl)
  | .map n k v, h => by
    obtain ⟨hk, hksorted⟩ := read_toJson k h.1
    obtain ⟨hv, hvsorted⟩ := read_toJson v h.2
    constructor
    · exact read_of_valid h rfl rfl (.map rfl (readParts_pair hk hv) rfl rfl)
    · exact read_of_valid h rfl rfl (.map rfl (readParts_pair hksorted hvsorted) rfl rfl)
  | .multiset n e, h => by
    obtain ⟨he, hsorted⟩ := read_toJson e h
    constructor
    · exact read_of_valid h rfl rfl (.multiset rfl (readParts_singleton "element" he) rfl)
    · exact read_of_valid h rfl rfl (.multiset rfl (readParts_singleton "element" hsorted) rfl)
  | .row n fs, h => by
    obtain ⟨hfs, hsorted⟩ := readFields_toJson fs h.2
    constructor
    · exact read_of_valid h rfl rfl (.row rfl hfs h.1)
    · exact read_of_valid h rfl rfl (.row rfl hsorted h.1)

theorem readFields_toJson : (fields : List (RowField LogicalType)) → FieldsValid fields →
    readFields (fieldsToJson fields) = .ok fields ∧
      readFields (Json.sortedItems (fieldsToJson fields)) = .ok fields
  | [], _ => ⟨rfl, rfl⟩
  | ⟨name, t⟩ :: fields, h => by
    obtain ⟨ht, htsorted⟩ := read_toJson t h.1
    obtain ⟨hfields, hfieldsSorted⟩ := readFields_toJson fields h.2
    have hfield : ∀ {v : Json}, read v = .ok t →
        readField (.obj [("name", .str name), ("type", v)]) = .ok ⟨name, t⟩ := by
      intro v hv
      simp only [readField, readFieldParts, hv]
      rfl
    constructor
    · rw [fieldsToJson, readFields, hfield ht, hfields]
      rfl
    · have hhead : readField (Json.sorted (.obj [("name", .str name), ("type", t.toJson)])) =
          .ok ⟨name, t⟩ := hfield htsorted
      rw [fieldsToJson, Json.sortedItems, readFields, hhead, hfieldsSorted]
      rfl

end

theorem valid_of_ofText? {text : String} (h : ofText? text = .ok t) : t.Valid := by
  simp only [ofText?, exceptBind_eq_ok] at h
  obtain ⟨⟨v, rest⟩, -, s, hs, hend⟩ := h
  split at hend
  · obtain rfl := Except.ok.inj hend
    exact valid_of_read v hs
  · cases hend

/-- What is read as a type, from a value or from a text, is valid; and a type is read back from
what is written for it exactly when it is valid, in the order of writing as with sorted keys. -/
theorem read_toJson_iff_valid :
    (∀ (v : Json) (t : LogicalType), read v = .ok t → t.Valid) ∧
      (∀ (text : String) (t : LogicalType), ofText? text = .ok t → t.Valid) ∧
        ∀ t : LogicalType, (read t.toJson = .ok t ↔ t.Valid) ∧
          (read t.toJson.sorted = .ok t ↔ t.Valid) := by
  refine ⟨fun v _ => valid_of_read v, fun _ _ => valid_of_ofText?, fun t => ⟨⟨?_, ?_⟩, ?_, ?_⟩⟩
  · exact valid_of_read t.toJson
  · exact fun h => (read_toJson t h).1
  · exact valid_of_read t.toJson.sorted
  · exact fun h => (read_toJson t h).2

/-- A row is read from an object with unknown attributes and from fields without keys, and the
type is valid. -/
theorem read_toJson_iff_valid_amount :
    let v : Json := .obj [("comment", .null), ("fields", .arr [.arr [.str "amount",
      .obj [("kind", .str "decimal"), ("nullable", .bool false), ("precision", .ofUInt32 38),
        ("scale", .ofUInt32 38)]]]), ("kind", .str "row"), ("nullable", .bool true)]
    let t : LogicalType := .row true [⟨"amount", .scalar false (.decimal 38 38)⟩]
    read v = .ok t ∧ t.Valid ∧ read t.toJson = .ok t ∧ read t.toJson.sorted = .ok t := by
  intro v t
  have hread : read v = .ok t := rfl
  have hvalid : t.Valid := read_toJson_iff_valid.1 v t hread
  obtain ⟨hwritten, hsorted⟩ := read_toJson_iff_valid.2.2 t
  exact ⟨hread, hvalid, hwritten.2 hvalid, hsorted.2 hvalid⟩

/-- Null that was written as not nullable is read as nullable. -/
example : read (LogicalType.scalar false .null).toJson = .ok .null := rfl

end LogicalType
end Restorable
