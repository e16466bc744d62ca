-- SUMMARY: Reading a document takes its form first and resolves the names in the form after that.
import Restorable.Proofs.Schema.Reads

/-!
# Forms of documents

The reader checks the attributes of an object and resolves its names in one walk. What the
attributes say does not depend on the names known so far: it is the form of the document. The
form keeps references and definitions in their order, and the first fault of each part where
the reader stops at it. Reading a document is reading its form.
-/
namespace Restorable
namespace Schema

open Steps

/-! ## Forms -/

/-- What a document says while its names are not resolved yet. -/
inductive Form
  /-- The reader stops here. -/
  | fault (e : SchemaFault)
  /-- A type without names. -/
  | plain (s : Schema)
  /-- A name, and the namespace around it. -/
  | reference (text : String) (space : Option String)
  | array (items : Form)
  | map (values : Form)
  | union (members : List Form)
  /-- An enum or a fixed type. -/
  | definition (n : Name) (s : Schema)
  | record (n : Name) (doc : Option String) (fields : List (Field Form))

namespace Form

/-- The full name that a text has within a namespace. -/
def qualified (text : String) (space : Option String) : String :=
  (Name.qualified text none space).full

/-- What a name stands for within its namespace, or else as it stands. -/
def resolve (text : String) (space : Option String) (scope : Scope) : Option Schema :=
  (scope.resolve (qualified text space)).or (scope.resolve text)

def readResolved (text : String) (space : Option String) : Read Schema := do
  match resolve text space (← get) with
  | some s => return s
  | none => throw (.undefinedName text)

mutual

/-- The schema that a form describes. -/
def read : Form → Read Schema
  | .fault e => throw e
  | .plain s => return s
  | .reference text space => readResolved text space
  | .array items => do return .array (← items.read)
  | .map values => do return .map (← values.read)
  | .union members => do return .union (← readMembers members [])
  | .definition n s => register n s
  | .record n doc fields => do
    modify (·.enter n.full)
    let fs ← readFields fields
    modify (·.leave n.full)
    register n (.record n doc fs)

def readMembers : List Form → List String → Read (List Schema)
  | [], _ => return []
  | f :: rest, seen => do
    let s ← f.read
    let key ← checkMember s seen
    return s :: (← readMembers rest (key :: seen))

def readFields : List (Field Form) → Read (List (Field Schema))
  | [] => return []
  | ⟨name, f, default⟩ :: rest => do
    let s ← f.read
    return ⟨name, s, default⟩ :: (← readFields rest)

end

/-! ## The form of a document -/

/-- A form, or the fault that stands in its place. -/
def ofExcept : Except SchemaFault Form → Form
  | .ok f => f
  | .error e => .fault e

/-- A primitive word, or a name. -/
def ofWord (word : String) (space : Option String) : Form :=
  match primitive? word none with
  | some s => .plain s
  | none => .reference word space

def ofEnum (attrs : List (String × Json)) (space : Option String) : Except SchemaFault Form := do
  let n ← readName attrs space
  match (Json.find? "symbols" attrs).bind Json.arr? with
  | none => throw (.missingSymbols n)
  | some symbols => return .definition n (.enum n (← readSymbols symbols))

def ofFixed (attrs : List (String × Json)) (space : Option String) (a : Option Refinement) :
    Except SchemaFault Form := do
  let n ← readName attrs space
  let size ← readSize n attrs
  checkFixed size (Refinement.on a .fixed)
  return .definition n (.fixed n size (Refinement.on a .fixed))

def ofRecord (fields : Option (Name → List (Field Form))) (attrs : List (String × Json))
    (space : Option String) : Except SchemaFault Form := do
  let n ← readName attrs space
  match fields with
  | none => throw (.missingFields n)
  | some fields => return .record n ((Json.find? "doc" attrs).bind Json.str?) (fields n)

/-- A field in which the reader stops. -/
def faultyField (e : SchemaFault) : Field Form := ⟨"", .fault e, none⟩

end Form

mutual

/-- The form of a value inside a namespace. -/
def form (v : Json) (space : Option String) : Form :=
  match v with
  | .str text => .ofWord text space
  | .arr members =>
    match members with
    | [] => .fault .emptyUnion
    | _ => .union (formMembers members space)
  | .obj attrs =>
    match formAttr "type" attrs with
    | none => .fault .missingType
    | some (.str word, _) => .ofExcept do
      let a ← readRefinement attrs
      match word with
      | "record" | "error" => Form.ofRecord (formFieldsAttr attrs) attrs space
      | "enum" => Form.ofEnum attrs space
      | "fixed" => Form.ofFixed attrs space a
      | "array" =>
        match formAttr "items" attrs with
        | none => throw .missingItems
        | some (_, items) => return .array (items space)
      | "map" =>
        match formAttr "values" attrs with
        | none => throw .missingValues
        | some (_, values) => return .map (values space)
      | word =>
        match primitive? word a with
        | some s => return .plain s
        | none => return .ofWord word space
    | some (_, nested) => nested space
  | v => .fault (.notSchema v)

def formMembers (members : List Json) (space : Option String) : List Form :=
  match members with
  | [] => []
  | v :: rest => form v space :: formMembers rest space

/-- The value of an attribute, with its form. -/
def formAttr (key : String) (attrs : List (String × Json)) :
    Option (Json × (Option String → Form)) :=
  match attrs with
  | [] => none
  | (k, v) :: rest => if k = key then some (v, form v) else formAttr key rest

/-- The forms in the `fields` attribute, if it is an array. -/
def formFieldsAttr (attrs : List (String × Json)) : Option (Name → List (Field Form)) :=
  match attrs with
  | [] => none
  | (k, v) :: rest =>
    if k = "fields" then
      match v with
      | .arr fields => some fun n => formFields fields n []
      | _ => none
    else formFieldsAttr rest

/-- The fields of a record, up to the first one without a proper name or type. -/
def formFields (fields : List Json) (owner : Name) (seen : List String) : List (Field Form) :=
  match fields with
  | [] => []
  | .obj attrs :: rest =>
    match readFieldName owner attrs seen with
    | .error e => [Form.faultyField e]
    | .ok name =>
      match formAttr "type" attrs with
      | none => [Form.faultyField (.fieldWithoutType name)]
      | some (_, type) =>
        ⟨name, type owner.space, Json.find? "default" attrs⟩ :: formFields rest owner (name :: seen)
  | _ :: _ => [Form.faultyField (.fieldWithoutName owner)]

end

/-! ## Reading a form -/

namespace Form

variable {α : Type}

private theorem read_ofExcept_bind (x : Except SchemaFault α) (f : α → Except SchemaFault Form) :
    (ofExcept (x >>= f)).read = ((liftM x : Read α) >>= fun a => (ofExcept (f a)).read) := by
  cases x <;> rfl

@[simp] theorem read_ofWord (word : String) (space : Option String) :
    (ofWord word space).read = readReference word space := by
  funext scope
  have hget : (get : Read Scope) scope = .ok (scope, scope) := rfl
  rw [readReference_eq, ofWord]
  cases primitive? word none with
  | some s => rfl
  | none =>
    rw [read, readResolved, bind_of_ok hget, Option.none_or, resolve, qualified]
    cases (scope.resolve (Name.qualified word none space).full).or (scope.resolve word) <;> rfl

@[simp] theorem read_ofPrimitive (found : Option Schema) (word : String) (space : Option String) :
    (ofExcept (match found with
      | some s => pure (.plain s)
      | none => pure (ofWord word space))).read = found.elim (readReference word space) pure := by
  cases found with
  | some s => rfl
  | none => exact read_ofWord word space

@[simp] theorem read_ofEnum (attrs : List (String × Json)) (space : Option String) :
    (ofExcept (ofEnum attrs space)).read = readEnum attrs space := by
  rw [ofEnum, readEnum, read_ofExcept_bind]
  congr 1
  funext n
  cases (Json.find? "symbols" attrs).bind Json.arr? with
  | none => rfl
  | some symbols => exact read_ofExcept_bind _ _

@[simp] theorem read_ofFixed (attrs : List (String × Json)) (space : Option String)
    (a : Option Refinement) :
    (ofExcept (ofFixed attrs space a)).read = readFixed attrs space a := by
  simp only [ofFixed, readFixed, read_ofExcept_bind]
  rfl

@[simp] theorem read_ofRecord (fields : Option (Name → List (Field Form)))
    (attrs : List (String × Json)) (space : Option String) :
    (ofExcept (ofRecord fields attrs space)).read = (do
      let n ← readName attrs space
      match fields.map fun fields (n : Name) => readFields (fields n) with
      | none => throw (.missingFields n)
      | some readAll =>
        modify (·.enter n.full)
        let fs ← readAll n
        modify (·.leave n.full)
        register n (.record n ((Json.find? "doc" attrs).bind Json.str?) fs) : Read Schema) := by
  rw [ofRecord, read_ofExcept_bind]
  congr 1
  funext n
  cases fields <;> rfl

end Form

mutual

/-- Reading a document is reading its form. -/
theorem read_eq_read_form : (v : Json) → (space : Option String) →
    read v space = (form v space).read
  | .null, _ | .bool _, _ | .num _, _ => rfl
  | .str text, space => (Form.read_ofWord text space).symm
  | .arr [], _ => rfl
  | .arr (v :: rest), space => by
    change (do return .union (← readMembers (v :: rest) space [])) =
      (Form.union (formMembers (v :: rest) space)).read
    rw [readMembers_eq_form, Form.read]
  | .obj attrs, space => by
    rw [read, form]
    simp only [readAttr_eq_form, readFieldsAttr_eq_form attrs]
    cases formAttr "type" attrs with
    | none => rfl
    | some r =>
      obtain ⟨v, nested⟩ := r
      cases v with
      | str word =>
        simp only [Option.map_some, Form.read_ofExcept_bind]
        congr 1
        funext a
        split
        · exact (Form.read_ofRecord _ attrs space).symm
        · exact (Form.read_ofRecord _ attrs space).symm
        · exact (Form.read_ofEnum attrs space).symm
        · exact (Form.read_ofFixed attrs space a).symm
        · cases formAttr "items" attrs <;> rfl
        · cases formAttr "values" attrs <;> rfl
        · simp only [Form.read_ofPrimitive]
          cases primitive? word a <;> rfl
      | _ => rfl

theorem readMembers_eq_form : (members : List Json) → (space : Option String) →
    (seen : List String) →
    readMembers members space seen = Form.readMembers (formMembers members space) seen
  | [], _, _ => rfl
  | v :: rest, space, seen => by
    rw [readMembers, formMembers, Form.readMembers, read_eq_read_form v space]
    simp only [readMembers_eq_form rest space]

theorem readAttr_eq_form (key : String) : (attrs : List (String × Json)) →
    readAttr key attrs = (formAttr key attrs).map fun r => (r.1, fun space => (r.2 space).read)
  | [] => rfl
  | (k, v) :: rest => by
    rw [readAttr, formAttr]
    by_cases h : k = key
    · rw [if_pos h, if_pos h, Option.map_some]
      have := funext (read_eq_read_form v)
      rw [this]
    · rw [if_neg h, if_neg h, readAttr_eq_form key rest]

theorem readFieldsAttr_eq_form : (attrs : List (String × Json)) →
    readFieldsAttr attrs = (formFieldsAttr attrs).map fun fields n => Form.readFields (fields n)
  | [] => rfl
  | (k, v) :: rest => by
    have ih := readFieldsAttr_eq_form rest
    by_cases h : k = "fields"
    · cases v with
      | arr fields =>
        simp only [readFieldsAttr, formFieldsAttr, if_pos h, Option.map_some]
        congr 1
        funext n
        exact readFields_eq_form fields n []
      | _ => simp only [readFieldsAttr, formFieldsAttr, if_pos h, Option.map_none]
    · cases v <;> simpa only [readFieldsAttr, formFieldsAttr, if_neg h] using ih

theorem readFields_eq_form : (fields : List Json) → (owner : Name) → (seen : List String) →
    readFields fields owner seen = Form.readFields (formFields fields owner seen)
  | [], _, _ => rfl
  | .null :: _, _, _ | .bool _ :: _, _, _ | .num _ :: _, _, _ | .str _ :: _, _, _
  | .arr _ :: _, _, _ => rfl
  | .obj attrs :: rest, owner, seen => by
    rw [readFields, formFields, readAttr_eq_form]
    cases readFieldName owner attrs seen with
    | error e => rfl
    | ok name =>
      cases formAttr "type" attrs with
      | none => rfl
      | some r =>
        change (do
          let s ← (r.2 owner.space).read
          return ⟨name, s, Json.find? "default" attrs⟩ ::
            (← readFields rest owner (name :: seen)) : Read (List (Field Schema))) = _
        rw [readFields_eq_form rest owner (name :: seen)]
        rfl

end

end Schema
end Restorable
