-- SUMMARY: Reading the attributes that the writer puts into the object of a type.
import Restorable.Proofs.Json.Accessors
import Restorable.Proofs.Schema.Legal
import Restorable.Proofs.Schema.Reading
import Restorable.Proofs.Steps
import Restorable.Schema.Writer

/-!
# Attributes of types

One law for each object that the writer makes: what the reader makes of it, given what
it makes of the parts inside. A definition is left at the point where it is registered.
-/
namespace Restorable
namespace Schema

open Steps

variable {space : Option String} {scope scope' : Scope}

/-! ## Annotations -/

private theorem readRefinement_none {attrs : List (String × Json)}
    (h : Json.find? "logicalType" attrs = none) : readRefinement attrs = .ok none := by
  simp only [readRefinement, h, Option.bind_none]

/-- A sound annotation is read from its logical type and, of a decimal, its digits. -/
private theorem readRefinement_some {attrs : List (String × Json)} {r : Refinement} (hr : r.Sound)
    (hname : Json.find? "logicalType" attrs = some (.str r.name))
    (hdigits : ∀ precision scale, r = .decimal precision scale →
      Json.find? "precision" attrs = some (.ofUInt32 precision) ∧
        Json.find? "scale" attrs = some (.ofUInt32 scale)) :
    readRefinement attrs = .ok (some r) := by
  cases r with
  | decimal precision scale =>
    obtain ⟨hprecision, hscale⟩ := hdigits precision scale rfl
    obtain ⟨hpos, hle⟩ := hr
    have hzero : precision.toUInt64 ≠ 0 := by
      intro h
      have hnat := congrArg UInt64.toNat h
      rw [UInt32.toNat_toUInt64] at hnat
      have hlt := UInt32.lt_iff_toNat_lt.1 hpos
      simp only [UInt32.toNat_zero, UInt64.toNat_zero] at hlt hnat
      omega
    have hbelow : ¬ precision.toUInt64 < scale.toUInt64 := by
      rw [UInt64.lt_iff_toNat_lt, UInt32.toNat_toUInt64, UInt32.toNat_toUInt64]
      exact Nat.not_lt.2 (UInt32.le_iff_toNat_le.1 hle)
    have hrange : precision.toUInt64 < 4294967296 := by
      rw [UInt64.lt_iff_toNat_lt, UInt32.toNat_toUInt64]
      exact precision.toNat_lt
    simp [readRefinement, hname, hprecision, hscale, Json.str?, Refinement.name, hzero, hbelow,
      hrange]
  | _ => simp only [readRefinement, hname, Option.bind_some, Json.str?, Refinement.name]

/-! ## Words and references -/

/-- An object with a word as its type and an annotation is read by the word. -/
private theorem read_typed {attrs : List (String × Json)} {word : String} {a : Option Refinement}
    (htype : Json.find? "type" attrs = some (.str word)) (ha : readRefinement attrs = .ok a) :
    read (.obj attrs) space scope = readTyped word a attrs space scope := by
  rw [read_obj, htype]
  exact bind_of_ok (lift_of_ok ha)

theorem read_word {word : String} {s : Schema} (h : primitive? word none = some s) :
    read (.str word) space scope = .ok (s, scope) := by
  rw [read_str]
  simp only [readReference, h]
  exact pure_run

/-- A full name is read as what the scope has for it. -/
theorem read_reference {n : Name} {s : Schema} (hn : n.Writable space)
    (h : scope.resolve n.full = some s) : read (.str n.full) space scope = .ok (s, scope) := by
  rw [read_str]
  simp only [readReference, Name.primitive?_eq_none hn.definable.2, Name.qualified_full hn]
  have hget : (get : Read Scope) scope = .ok (scope, scope) := rfl
  rw [bind_of_ok hget]
  simp only [h]
  exact pure_run

/-- A primitive type is read from its word, or from an object with its annotation. -/
theorem read_primitiveJson {word : String} {a : Option Refinement} {s : Schema}
    (hs : ∀ r, a = some r → r.Sound)
    (hw : word ∉ ["record", "error", "enum", "fixed", "array", "map"])
    (h : primitive? word a = some s) :
    read (primitiveJson word a) space scope = .ok (s, scope) := by
  cases a with
  | none => exact read_word h
  | some r =>
    let attrs : List (String × Json) := refinementAttr r ++ decimalAttrs r ++ [("type", .str word)]
    have htype : Json.find? "type" attrs = some (.str word) := by
      cases r <;> simp [attrs, refinementAttr, decimalAttrs, Json.find?]
    have hread : readRefinement attrs = .ok (some r) := by
      apply readRefinement_some (hs r rfl)
      · simp [attrs, refinementAttr, Json.find?]
      · rintro precision scale rfl
        simp [attrs, refinementAttr, decimalAttrs, Json.find?]
    change read (.obj attrs) space scope = _
    rw [read_typed htype hread]
    simp only [List.mem_cons, List.not_mem_nil, or_false, not_or] at hw
    unfold readTyped
    split
    all_goals first | (simp only [h]; exact pure_run) | simp_all

/-! ## Definitions -/

/-- A name of its own stands in its attribute, without a namespace beside it. -/
private theorem readName_of_find {attrs : List (String × Json)} {n : Name} (hn : n.Writable space)
    (hname : Json.find? "name" attrs = some (.str n.full))
    (hspace : Json.find? "namespace" attrs = none) : readName attrs space = .ok n := by
  have hvalid : n.isValid = true := by
    rw [← hn.spelled]
    exact Name.isValid_of_definable hn.definable
  have hfree : ¬ (n.space = none ∧ (primitive? n.name none).isSome = true) := by
    rintro ⟨hnone, hsome⟩
    have hfull : n.full = n.name := by simp only [Name.full, hnone]
    rw [← hfull, Name.primitive?_eq_none hn.definable.2] at hsome
    cases hsome
  simp only [readName, hname, hspace, Option.bind_some, Option.bind_none, Json.str?,
    Name.qualified_full hn, hvalid, if_neg hfree]
  rfl

theorem register_new {n : Name} {s : Schema} (h : scope.lookup n.full = none) :
    register n s scope = .ok (s, { scope with named := (n.full, s) :: scope.named }) := by
  have hget : (get : Read Scope) scope = .ok (scope, scope) := rfl
  unfold register
  rw [bind_of_ok hget]
  simp only [h]
  rfl

@[simp] theorem readSymbols_map (symbols : List String) :
    readSymbols (symbols.map .str) = .ok symbols := by
  induction symbols with
  | nil => rfl
  | cons symbol symbols ih =>
    simp only [List.map_cons, readSymbols, ih]
    rfl

theorem read_enumJson {n : Name} {symbols : List String} (hn : n.Writable space) :
    read (enumJson n symbols) space scope = register n (.enum n symbols) scope := by
  let attrs : List (String × Json) :=
    [("name", .str n.full), ("symbols", .ofStrings symbols), ("type", .str "enum")]
  have htype : Json.find? "type" attrs = some (.str "enum") := by
    simp [attrs, Json.find?]
  have hplain : readRefinement attrs = .ok none :=
    readRefinement_none (by simp [attrs, Json.find?])
  have hname : readName attrs space = .ok n := by
    apply readName_of_find hn <;> simp [attrs, Json.find?]
  have hsymbols : (Json.find? "symbols" attrs).bind Json.arr? = some (symbols.map .str) := by
    simp [attrs, Json.find?, Json.ofStrings, Json.arr?]
  change read (.obj attrs) space scope = _
  rw [read_typed htype hplain]
  change readEnum attrs space scope = _
  unfold readEnum
  rw [bind_of_ok (lift_of_ok hname)]
  simp only [hsymbols]
  exact bind_of_ok (lift_of_ok (readSymbols_map symbols))

theorem read_fixedJson {n : Name} {size : UInt64} {a : Option Refinement} (hn : n.Writable space)
    (ha : Refinement.Fits a .fixed) (hsize : size < 2147483648)
    (hcheck : checkFixed size a = .ok ()) :
    read (fixedJson n size a) space scope = register n (.fixed n size a) scope := by
  let attrs : List (String × Json) := (a.map refinementAttr).getD [] ++ [("name", .str n.full)] ++
    (a.map decimalAttrs).getD [] ++ [("size", .ofUInt64 size), ("type", .str "fixed")]
  have htype : Json.find? "type" attrs = some (.str "fixed") := by
    cases a with
    | none => simp [attrs, Json.find?]
    | some r => cases r <;> simp [attrs, refinementAttr, decimalAttrs, Json.find?]
  have hread : readRefinement attrs = .ok a := by
    cases a with
    | none => exact readRefinement_none (by simp [attrs, Json.find?])
    | some r =>
      apply readRefinement_some (Refinement.fits_some.1 ha).2
      · simp [attrs, refinementAttr, Json.find?]
      · rintro precision scale rfl
        simp [attrs, refinementAttr, decimalAttrs, Json.find?]
  have hname : readName attrs space = .ok n := by
    apply readName_of_find hn
    all_goals cases a with
      | none => simp [attrs, Json.find?]
      | some r => cases r <;> simp [attrs, refinementAttr, decimalAttrs, Json.find?]
  have hbytes : readSize n attrs = .ok size := by
    have hfind : Json.find? "size" attrs = some (.ofUInt64 size) := by
      cases a with
      | none => simp [attrs, Json.find?]
      | some r => cases r <;> simp [attrs, refinementAttr, decimalAttrs, Json.find?]
    simp [readSize, hfind, hsize]
  change read (.obj attrs) space scope = _
  rw [read_typed htype hread]
  change readFixed attrs space a scope = _
  unfold readFixed
  rw [bind_of_ok (lift_of_ok hname), bind_of_ok (lift_of_ok hbytes)]
  simp only [Refinement.on_of_fits ha]
  exact bind_of_ok (lift_of_ok hcheck)

/-- A record is read by entering its name, reading its fields and leaving its name. -/
theorem read_recordJson {n : Name} {doc : Option String} {items : List Json}
    (hn : n.Writable space) :
    read (recordJson n doc items) space scope = (do
      let fields ← readFields items n []
      modify (·.leave n.full)
      register n (.record n doc fields) : Read Schema) (scope.enter n.full) := by
  let attrs : List (String × Json) := (doc.map fun d => [("doc", .str d)]).getD [] ++
    [("fields", .arr items), ("name", .str n.full), ("type", .str "record")]
  have htype : Json.find? "type" attrs = some (.str "record") := by
    cases doc <;> simp [attrs, Json.find?]
  have hplain : readRefinement attrs = .ok none := by
    apply readRefinement_none
    cases doc <;> simp [attrs, Json.find?]
  have hname : readName attrs space = .ok n := by
    apply readName_of_find hn <;> cases doc <;> simp [attrs, Json.find?]
  have hfields : Json.find? "fields" attrs = some (.arr items) := by
    cases doc <;> simp [attrs, Json.find?]
  have hdoc : (Json.find? "doc" attrs).bind Json.str? = doc := by
    cases doc <;> simp [attrs, Json.find?, Json.str?]
  have henter : (modify (·.enter n.full) : Read Unit) scope = .ok ((), scope.enter n.full) := rfl
  change read (.obj attrs) space scope = _
  rw [read_typed htype hplain]
  simp only [readTyped, hfields, fieldsReader]
  rw [bind_of_ok (lift_of_ok hname), bind_of_ok henter, hdoc]

/-! ## Collections -/

theorem read_arrayJson (items : Json) (space : Option String) (scope : Scope) :
    read (.obj [("items", items), ("type", .str "array")]) space scope =
      (do return .array (← read items space) : Read Schema) scope := by
  have htype : Json.find? "type" [("items", items), ("type", .str "array")] = some (.str "array") := by
    simp [Json.find?]
  have hitems : Json.find? "items" [("items", items), ("type", .str "array")] = some items := by
    simp [Json.find?]
  have hplain : readRefinement [("items", items), ("type", .str "array")] = .ok none :=
    readRefinement_none (by simp [Json.find?])
  rw [read_typed htype hplain]
  simp only [readTyped, hitems]

theorem read_mapJson (values : Json) (space : Option String) (scope : Scope) :
    read (.obj [("type", .str "map"), ("values", values)]) space scope =
      (do return .map (← read values space) : Read Schema) scope := by
  have htype : Json.find? "type" [("type", .str "map"), ("values", values)] = some (.str "map") := by
    simp [Json.find?]
  have hvalues : Json.find? "values" [("type", .str "map"), ("values", values)] = some values := by
    simp [Json.find?]
  have hplain : readRefinement [("type", .str "map"), ("values", values)] = .ok none :=
    readRefinement_none (by simp [Json.find?])
  rw [read_typed htype hplain]
  simp only [readTyped, hvalues]

theorem checkMember_eq_ok {s : Schema} {seen : List String} {key : String} :
    checkMember s seen = .ok key ↔ s.isUnion = false ∧ s.memberKey ∉ seen ∧ s.memberKey = key := by
  have hplain : s.isUnion = false → checkMember s seen =
      if s.memberKey ∈ seen then .error (.duplicateMember s.memberKey) else .ok s.memberKey := by
    intro hu
    cases s <;> first | rfl | exact absurd hu Bool.noConfusion
  cases hu : s.isUnion with
  | true => cases s <;> first | exact absurd hu Bool.noConfusion | simp [checkMember]
  | false =>
    rw [hplain hu]
    by_cases hseen : s.memberKey ∈ seen <;> simp [hseen]

theorem readMembers_cons {v : Json} {items : List Json} {seen : List String} {s : Schema}
    {ss : List Schema} {scope₁ : Scope} (h : read v space scope = .ok (s, scope₁))
    (hs : s.isUnion = false) (hnew : s.memberKey ∉ seen)
    (hrest : readMembers items space (s.memberKey :: seen) scope₁ = .ok (ss, scope')) :
    readMembers (v :: items) space seen scope = .ok (s :: ss, scope') := by
  have hkey : checkMember s seen = .ok s.memberKey := checkMember_eq_ok.2 ⟨hs, hnew, rfl⟩
  rw [readMembers_step, bind_of_ok h, bind_of_ok (lift_of_ok hkey), bind_of_ok hrest]
  exact pure_run

theorem read_unionJson {items : List Json} (hne : items ≠ []) (space : Option String)
    (scope : Scope) :
    read (.arr items) space scope =
      (do return .union (← readMembers items space []) : Read Schema) scope := by
  cases items with
  | nil => exact absurd rfl hne
  | cons v items => rw [read_arr]

/-- A field is read by its type: its name and its default stand beside it. -/
theorem readFields_fieldJson {owner : Name} {seen : List String} {name : String} {type : Json}
    {default : Option Json} {items : List Json} (hname : Name.isIdentifier name.toList = true)
    (hnew : name ∉ seen) :
    readFields (fieldJson name type default :: items) owner seen scope = (do
      let s ← read type owner.space
      return ⟨name, s, default⟩ :: (← readFields items owner (name :: seen)) :
        Read (List (Field Schema))) scope := by
  let attrs : List (String × Json) :=
    (default.map fun v => [("default", v)]).getD [] ++ [("name", .str name), ("type", type)]
  have hfield : readFieldName owner attrs seen = .ok name := by
    have hfind : Json.find? "name" attrs = some (.str name) := by
      cases default <;> simp [attrs, Json.find?]
    simp only [readFieldName, hfind, Option.bind_some, Json.str?, hname, if_neg hnew]
    rfl
  have htype : Json.find? "type" attrs = some type := by
    cases default <;> simp [attrs, Json.find?]
  have hdefault : Json.find? "default" attrs = default := by
    cases default <;> simp [attrs, Json.find?]
  change readFields (.obj attrs :: items) owner seen scope = _
  rw [readFields_obj, bind_of_ok (lift_of_ok hfield)]
  simp only [htype, hdefault]

end Schema
end Restorable
