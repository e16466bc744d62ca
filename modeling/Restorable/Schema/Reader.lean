-- SUMMARY: Reading schema documents: name resolution, definitions and annotations.
import Restorable.Schema.Basic
import Restorable.Schema.Fault
import Restorable.Json.Reader

/-!
# Reading schemas

The reader walks the document once and carries two tables: the completed named types
and the records whose fields are still being read. A reference to a completed type is
replaced by the type, one to an open record stays a reference, and a second definition
of a name has to equal the first.
-/
namespace Restorable
namespace Schema

/-! ## The state of the reader -/

/-- What the reader knows of named types, by full name. -/
structure Scope where
  /-- Completed types, the latest first. -/
  named : List (String × Schema)
  /-- Records around the place that is read. -/
  pending : List String

namespace Scope

def empty : Scope := ⟨[], []⟩

/-- The latest definition of a full name. -/
def lookup (scope : Scope) (full : String) : Option Schema := scope.named.lookup full

/-- Start the fields of a record. -/
def enter (scope : Scope) (full : String) : Scope :=
  { scope with pending := full :: scope.pending }

/-- End the fields of a record; its name is open no more, however often it was entered. -/
def leave (scope : Scope) (full : String) : Scope :=
  { scope with pending := scope.pending.filter (· ≠ full) }

/-- What a full name stands for: a completed type, or else an open record. -/
def resolve (scope : Scope) (full : String) : Option Schema :=
  match scope.lookup full with
  | some s => some s
  | none => if full ∈ scope.pending then some (.ref (.ofFull full)) else none

end Scope

/-- A step of the reader: it may fail, and it may change the scope. -/
abbrev Read (α : Type) := StateT Scope (Except SchemaFault) α

/-! ## Types without a definition -/

/-- The type that a primitive word stands for, refined where the annotation applies. -/
def primitive? (word : String) (a : Option Refinement) : Option Schema :=
  match word with
  | "null" => some .null
  | "boolean" => some .boolean
  | "int" => some (.int (Refinement.on a .int))
  | "long" => some (.long (Refinement.on a .long))
  | "float" => some .float
  | "double" => some .double
  | "bytes" => some (.bytes (Refinement.on a .bytes))
  | "string" => some (.string (Refinement.on a .string))
  | _ => none

/-- A primitive word, or a name resolved first within the enclosing namespace and then
as it stands. -/
def readReference (text : String) (space : Option String) : Read Schema := do
  match primitive? text none with
  | some s => return s
  | none =>
    let scope ← get
    match scope.resolve (Name.qualified text none space).full with
    | some s => return s
    | none =>
      match scope.resolve text with
      | some s => return s
      | none => throw (.undefinedName text)

/-- Two members of a union are duplicates when they have one key: the full name of a
named type or reference, the type word of any other. -/
def memberKey (s : Schema) : String :=
  match s.name? with
  | some n => n.full
  | none => s.typeName

/-- The key of a member that may follow members with the keys `seen`. -/
def checkMember (s : Schema) (seen : List String) : Except SchemaFault String :=
  match s with
  | .union _ => .error .unionInUnion
  | s => if s.memberKey ∈ seen then .error (.duplicateMember s.memberKey) else .ok s.memberKey

/-! ## Attributes -/

/-- The annotation that the attributes of an object describe. Unknown logical types are
ignored; a decimal needs a positive precision and a scale no greater. -/
def readRefinement (attrs : List (String × Json)) : Except SchemaFault (Option Refinement) :=
  match (Json.find? "logicalType" attrs).bind Json.str? with
  | some "decimal" =>
    match (Json.find? "precision" attrs).bind Json.uint64? with
    | none => .error .precisionNotPositive
    | some precision =>
      let scale := ((Json.find? "scale" attrs).bind Json.uint64?).getD 0
      if precision = 0 then .error .precisionNotPositive
      else if precision < scale then .error (.scaleAbovePrecision scale precision)
      else if precision < 4294967296 then .ok (some (.decimal precision.toUInt32 scale.toUInt32))
      else .error (.precisionOutOfRange precision)
  | some "date" => .ok (some .date)
  | some "time-millis" => .ok (some .timeMillis)
  | some "time-micros" => .ok (some .timeMicros)
  | some "timestamp-millis" => .ok (some .timestampMillis)
  | some "timestamp-micros" => .ok (some .timestampMicros)
  | some "local-timestamp-millis" => .ok (some .localTimestampMillis)
  | some "local-timestamp-micros" => .ok (some .localTimestampMicros)
  | some "uuid" => .ok (some .uuid)
  | _ => .ok none

/-- The name that the attributes of an object declare. -/
def readName (attrs : List (String × Json)) (space : Option String) : Except SchemaFault Name :=
  match (Json.find? "name" attrs).bind Json.str? with
  | none => .error .missingName
  | some text =>
    let written := (Json.find? "namespace" attrs).bind Json.str?
    let n := Name.qualified text written space
    if !n.isValid then .error (.invalidName n)
    else if n.space = none ∧ (primitive? n.name none).isSome then .error (.reservedName text)
    else .ok n

/-- Every item as a string. -/
def readSymbols : List Json → Except SchemaFault (List String)
  | [] => .ok []
  | .str s :: rest => (s :: ·) <$> readSymbols rest
  | _ :: _ => .error .symbolNotString

/-- The greatest number of decimal digits that fit into `size` bytes in two's
complement: the bits without the sign, times the binary64 value of log10 2, rounded,
without its fraction. -/
def greatestPrecision (size : UInt64) : Nat :=
  let bits := 8 * size.toNat - 1
  ((Binary64.ofUnits? false (bits * 5422874305198591 * Nat.pow 2 1020) 1).map Binary64.floor).getD 0

/-- The size of a fixed type, at most 2^31 - 1. -/
def readSize (n : Name) (attrs : List (String × Json)) : Except SchemaFault UInt64 :=
  match (Json.find? "size" attrs).bind Json.uint64? with
  | none => .error (.missingSize n)
  | some size => if size < 2147483648 then .ok size else .error (.sizeTooLarge n size)

/-- A fixed type has to hold every digit of its decimal annotation. -/
def checkFixed (size : UInt64) (a : Option Refinement) : Except SchemaFault Unit :=
  match a with
  | some (.decimal precision _) =>
    if greatestPrecision size < precision.toNat then
      .error (.fixedTooSmall size precision (greatestPrecision size))
    else .ok ()
  | _ => .ok ()

/-- Record a completed named type. A second definition has to equal the first. -/
def register (n : Name) (s : Schema) : Read Schema := do
  let scope ← get
  match scope.lookup n.full with
  | some known =>
    if known.same s then
      set { scope with named := (n.full, s) :: scope.named }
      return s
    else throw (.conflictingDefinitions n)
  | none =>
    set { scope with named := (n.full, s) :: scope.named }
    return s

def readEnum (attrs : List (String × Json)) (space : Option String) : Read Schema := do
  let n ← readName attrs space
  match (Json.find? "symbols" attrs).bind Json.arr? with
  | none => throw (.missingSymbols n)
  | some symbols => register n (.enum n (← readSymbols symbols))

def readFixed (attrs : List (String × Json)) (space : Option String)
    (a : Option Refinement) : Read Schema := do
  let n ← readName attrs space
  let size ← readSize n attrs
  let a := Refinement.on a .fixed
  checkFixed size a
  register n (.fixed n size a)

/-! ## Fields -/

/-- The name of a field that may follow fields with the names `seen`. -/
def readFieldName (record : Name) (attrs : List (String × Json)) (seen : List String) :
    Except SchemaFault String :=
  match (Json.find? "name" attrs).bind Json.str? with
  | none => .error (.fieldWithoutName record)
  | some field =>
    if !Name.isIdentifier field.toList then .error (.invalidFieldName field)
    else if field ∈ seen then .error (.duplicateField field record)
    else .ok field

/-! ## Documents -/

mutual

/-- The schema that a value describes inside a namespace. -/
def read (v : Json) (space : Option String) : Read Schema :=
  match v with
  | .str text => readReference text space
  | .arr members =>
    match members with
    | [] => throw .emptyUnion
    | _ => do return .union (← readMembers members space [])
  | .obj attrs =>
    match readAttr "type" attrs with
    | none => throw .missingType
    | some (.str word, _) => do
      let a ← readRefinement attrs
      match word with
      | "record" | "error" =>
        let n ← readName attrs space
        match readFieldsAttr attrs with
        | none => throw (.missingFields n)
        | some readAll =>
          modify (·.enter n.full)
          let fields ← readAll n
          modify (·.leave n.full)
          let doc := (Json.find? "doc" attrs).bind Json.str?
          register n (.record n doc fields)
      | "enum" => readEnum attrs space
      | "fixed" => readFixed attrs space a
      | "array" =>
        match readAttr "items" attrs with
        | none => throw .missingItems
        | some (_, readItems) => return .array (← readItems space)
      | "map" =>
        match readAttr "values" attrs with
        | none => throw .missingValues
        | some (_, readValues) => return .map (← readValues space)
      | word =>
        match primitive? word a with
        | some s => return s
        | none => readReference word space
    | some (_, readNested) => readNested space
  | v => throw (.notSchema v)

/-- The members of a union, from left to right. -/
def readMembers (members : List Json) (space : Option String) (seen : List String) :
    Read (List Schema) :=
  match members with
  | [] => return []
  | v :: rest => do
    let s ← read v space
    let key ← checkMember s seen
    return s :: (← readMembers rest space (key :: seen))

/-- The value of an attribute, with its reading as a schema. -/
def readAttr (key : String) (attrs : List (String × Json)) :
    Option (Json × (Option String → Read Schema)) :=
  match attrs with
  | [] => none
  | (k, v) :: rest => if k = key then some (v, read v) else readAttr key rest

/-- The reading of the `fields` attribute, if it is an array. -/
def readFieldsAttr (attrs : List (String × Json)) : Option (Name → Read (List (Field Schema))) :=
  match attrs with
  | [] => none
  | (k, v) :: rest =>
    if k = "fields" then
      match v with
      | .arr fields => some fun n => readFields fields n []
      | _ => none
    else readFieldsAttr rest

/-- The fields of a record, from first to last. -/
def readFields (fields : List Json) (record : Name) (seen : List String) :
    Read (List (Field Schema)) :=
  match fields with
  | [] => return []
  | .obj attrs :: rest => do
    let name ← readFieldName record attrs seen
    match readAttr "type" attrs with
    | none => throw (.fieldWithoutType name)
    | some (_, readType) =>
      let schema ← readType record.space
      let field := ⟨name, schema, Json.find? "default" attrs⟩
      return field :: (← readFields rest record (name :: seen))
  | _ :: _ => throw (.fieldWithoutName record)

end

/-- The schema that a JSON value describes. -/
def ofJson? (v : Json) : Except SchemaFault Schema := (read v none).run' .empty

/-- The schema that a document describes. -/
def ofText? (text : String) : Except SchemaFault Schema :=
  match Json.parse? text with
  | none => .error .invalidJson
  | some v => ofJson? v

end Schema
end Restorable
