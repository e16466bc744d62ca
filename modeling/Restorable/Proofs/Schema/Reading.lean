-- SUMMARY: The equations of the reader, with the attributes of an object looked up by key.
import Restorable.Schema.Reader

/-!
# Equations of the reader

The reader walks the attributes of an object itself, so that its recursion is plain. What
it finds is the first attribute with a key, and what it makes of the object depends on
the attributes only through such lookups.
-/
namespace Restorable
namespace Schema

/-! ## Attributes by key -/

theorem readAttr_eq_find? (key : String) (attrs : List (String × Json)) :
    readAttr key attrs = (Json.find? key attrs).map fun v => (v, read v) := by
  induction attrs with
  | nil => rfl
  | cons attr attrs ih =>
    obtain ⟨k, v⟩ := attr
    change (if k = key then some (v, read v) else readAttr key attrs) = _
    rw [ih]
    by_cases h : k = key
    · simp only [if_pos h, Json.find?, Option.map_some]
    · simp only [if_neg h, Json.find?]

/-- The reading of the fields of a record, from the value of their attribute. -/
def fieldsReader : Option Json → Option (Name → Read (List (Field Schema)))
  | some (.arr fields) => some fun n => readFields fields n []
  | _ => none

theorem readFieldsAttr_eq_find? (attrs : List (String × Json)) :
    readFieldsAttr attrs = fieldsReader (Json.find? "fields" attrs) := by
  induction attrs with
  | nil => rfl
  | cons attr attrs ih =>
    obtain ⟨k, v⟩ := attr
    have hstep : readFieldsAttr ((k, v) :: attrs) =
        if k = "fields" then fieldsReader (some v) else readFieldsAttr attrs := by
      cases v <;> rfl
    rw [hstep, ih]
    by_cases h : k = "fields"
    · simp only [if_pos h, Json.find?]
    · simp only [if_neg h, Json.find?]

/-! ## Objects -/

/-- What an object with this word as its type and this annotation is read as. -/
def readTyped (word : String) (a : Option Refinement) (attrs : List (String × Json))
    (space : Option String) : Read Schema :=
  match word with
  | "record" | "error" => do
    let n ← readName attrs space
    match fieldsReader (Json.find? "fields" attrs) with
    | none => throw (.missingFields n)
    | some readAll =>
      modify (·.enter n.full)
      let fields ← readAll n
      modify (·.leave n.full)
      let doc := (Json.find? "doc" attrs).bind Json.str?
      register n (.record n doc fields)
  | "enum" => readEnum attrs space
  | "fixed" => readFixed attrs space a
  | "array" =>
    match Json.find? "items" attrs with
    | none => throw .missingItems
    | some items => do return .array (← read items space)
  | "map" =>
    match Json.find? "values" attrs with
    | none => throw .missingValues
    | some values => do return .map (← read values space)
  | word =>
    match primitive? word a with
    | some s => return s
    | none => readReference word space

theorem read_str (text : String) (space : Option String) :
    read (.str text) space = readReference text space := rfl

theorem read_obj (attrs : List (String × Json)) (space : Option String) :
    read (.obj attrs) space =
      match Json.find? "type" attrs with
      | none => throw .missingType
      | some (.str word) => do readTyped word (← readRefinement attrs) attrs space
      | some v => read v space := by
  simp only [read, readAttr_eq_find?, readFieldsAttr_eq_find?]
  cases Json.find? "type" attrs with
  | none => rfl
  | some v =>
    cases v with
    | str word =>
      unfold readTyped
      cases Json.find? "items" attrs <;> cases Json.find? "values" attrs <;> rfl
    | _ => rfl

theorem read_arr (v : Json) (items : List Json) (space : Option String) :
    read (.arr (v :: items)) space =
      (do return .union (← readMembers (v :: items) space [])) := rfl

theorem readMembers_step (v : Json) (items : List Json) (space : Option String)
    (seen : List String) :
    readMembers (v :: items) space seen = (do
      let s ← read v space
      let key ← checkMember s seen
      return s :: (← readMembers items space (key :: seen))) := rfl

/-! ## Fields -/

theorem readFields_obj (attrs : List (String × Json)) (items : List Json) (owner : Name)
    (seen : List String) :
    readFields (.obj attrs :: items) owner seen = (do
      let name ← readFieldName owner attrs seen
      match Json.find? "type" attrs with
      | none => throw (.fieldWithoutType name)
      | some type =>
        let schema ← read type owner.space
        let field := ⟨name, schema, Json.find? "default" attrs⟩
        return field :: (← readFields items owner (name :: seen))) := by
  simp only [readFields, readAttr_eq_find?]
  cases Json.find? "type" attrs <;> rfl

end Schema
end Restorable
