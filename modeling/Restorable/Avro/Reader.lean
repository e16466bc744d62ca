-- SUMMARY: The strict reading of schema documents, which accepts or refuses.
import Restorable.Avro.Default

/-!
# The strict reading

A second reading of schema documents, used as a cross-check. It differs from the first
in what it knows and in what it checks: a reference is resolved in the enclosing
namespace only, redefinitions pass, symbols, defaults and logical types are checked.
-/
namespace Restorable
namespace Avro

/-! ## The state of the reading -/

/-- Completed shapes, and the records around the place that is read; aliases count as
names of both. -/
structure Names where
  completed : Known
  open_ : List (Name × Name)

/-- Why the reading refuses. A type that does not carry its logical type is kept apart,
with its innermost type word, since a logical type around it may settle for that word. -/
inductive Refusal
  | notCarried (word : String)
  | malformed
  deriving DecidableEq, Repr

/-- A step of the reading: it may refuse, and it may change the names. What was named up
to a refusal stays. -/
abbrev Read (α : Type) := ExceptT Refusal (StateM Names) α

def refuse {α : Type} : Read α := throw .malformed

/-- Go on only if a condition holds. -/
def demand (b : Bool) : Read Unit := if b then pure () else refuse

def demandSome {α : Type} : Option α → Read α
  | some x => pure x
  | none => refuse

/-- The aliases of a definition as full names. -/
def aliases (attrs : List (String × Json)) (n : Name) : Option (List Name) :=
  match (Json.find? "aliases" attrs).bind Json.arr? with
  | none => some []
  | some xs =>
    match xs.mapM Json.str? with
    | none => some []
    | some texts => texts.mapM fun text => do
      let a ← name? text
      return within { a with space := space? a.space } n.space

/-- Open a record under its name and aliases. -/
def openRecord (n : Name) (others : List Name) : Read Unit :=
  modify fun names => { names with open_ := (n :: others).map (·, n) ++ names.open_ }

/-- Complete a named shape under its name and aliases. -/
def complete (n : Name) (others : List Name) (s : Shape) : Read Unit :=
  modify fun names =>
    ⟨(others.reverse ++ [n]).map (·, s) ++ names.completed,
      names.open_.filter fun entry => entry.1 ∉ n :: others⟩

/-! ## References and definitions -/

def primitive? (word : String) : Option Kind :=
  match word with
  | "null" => some .null
  | "boolean" => some .boolean
  | "int" => some .int
  | "long" => some .long
  | "float" => some .float
  | "double" => some .double
  | "bytes" => some .bytes
  | "string" => some .string
  | _ => none

/-- A primitive word or a name that is known in the enclosing namespace. -/
def reference (text : String) (enclosing : Option String) : Read Shape :=
  match primitive? text with
  | some k => return .plain k
  | none => do
    let n ← demandSome (name? text)
    let n := within { n with space := space? n.space } enclosing
    let names ← get
    match names.completed.lookup n with
    | some _ => return .ref n
    | none => return .ref (← demandSome (names.open_.lookup n))

/-- The name of a definition: its own namespace, or the one written beside it, or the
enclosing one. -/
def definedName (attrs : List (String × Json)) (enclosing : Option String) : Option Name := do
  let n ← name? (← (Json.find? "name" attrs).bind Json.str?)
  let written := (Json.find? "namespace" attrs).bind Json.str?
  let space := space? (n.space.or (written.or enclosing))
  if space.all fun space => isSpace space.toList then some { n with space := space } else none

/-- The shape that the type word of an object names, a record under way or a completed
shape. An object without the attribute `key` that its type word demands stands for it. -/
def seen? (key word : String) (attrs : List (String × Json)) (enclosing : Option String) :
    Read (Option Shape) := do
  if (Json.find? key attrs).isSome then return none
  else
    let n := within ⟨word, none⟩ enclosing
    let names ← get
    match names.open_.lookup n with
    | some n => return some (.ref n)
    | none => return names.completed.lookup n

def isSymbol (s : String) : Bool := Name.isIdentifier s.toList

def allDifferent (ss : List String) : Bool := decide ss.Nodup

/-- An enum: different symbols, and a default that is one of them. -/
def newEnum (attrs : List (String × Json)) (enclosing : Option String) : Read Shape := do
  let n ← demandSome (definedName attrs enclosing)
  let others ← demandSome (aliases attrs n)
  let symbols ← demandSome do (← (Json.find? "symbols" attrs).bind Json.arr?).mapM Json.str?
  demand (symbols.all isSymbol && allDifferent symbols)
  let default ←
    match Json.find? "default" attrs with
    | none => pure none
    | some v => do
      let s ← demandSome v.str?
      demand (s ∈ symbols)
      pure (some s)
  let shape := Shape.enum n symbols default
  complete n others shape
  return shape

def newFixed (attrs : List (String × Json)) (enclosing : Option String) : Read Shape := do
  let n ← demandSome (definedName attrs enclosing)
  let others ← demandSome (aliases attrs n)
  let size ← demandSome ((Json.find? "size" attrs).bind Json.uint64?)
  complete n others (.fixed n size)
  return .fixed n size

def readEnum (attrs : List (String × Json)) (enclosing : Option String) : Read Shape := do
  match ← seen? "symbols" "enum" attrs enclosing with
  | some s => return s
  | none => newEnum attrs enclosing

def readFixed (attrs : List (String × Json)) (enclosing : Option String) : Read Shape := do
  match ← seen? "size" "fixed" attrs enclosing with
  | some s => return s
  | none => newFixed attrs enclosing

/-! ## Logical types -/

/-- A precision of at least one, with a scale between zero and the precision. -/
def precision? (attrs : List (String × Json)) : Option UInt64 :=
  let precision := (Json.find? "precision" attrs).bind Json.uint64?
  let scale :=
    match Json.find? "scale" attrs with
    | none => some 0
    | some v => v.uint64?
  match precision, scale with
  | some p, some s => if 1 ≤ p ∧ s ≤ p then some p else none
  | _, _ => none

/-- The decimal that a shape carries, which is bytes or a fixed type. -/
def decimalOn? (shape : Shape) (precision : UInt64) : Option Shape :=
  match shape with
  | .plain .bytes => some (.decimal precision none)
  | .fixed _ size => some (.decimal precision (some size))
  | _ => none

/-- The logical types that are dropped on a type that does not carry them: the kinds
that do, and the kind that results. -/
def droppable? (word : String) : Option (Kind × Kind) :=
  match word with
  | "date" => some (.int, .date)
  | "time-millis" => some (.int, .timeMillis)
  | "time-micros" => some (.long, .timeMicros)
  | "timestamp-millis" => some (.long, .timestampMillis)
  | "timestamp-micros" => some (.long, .timestampMicros)
  | "local-timestamp-millis" => some (.long, .localTimestampMillis)
  | "local-timestamp-micros" => some (.long, .localTimestampMicros)
  | _ => none

mutual

/-- The innermost type word of a nested type. -/
def typeWord : Json → Option String
  | .str word => some word
  | .obj attrs => typeWordAttr attrs
  | _ => none

def typeWordAttr : List (String × Json) → Option String
  | [] => none
  | (k, v) :: attrs => if k = "type" then typeWord v else typeWordAttr attrs

end

/-! ## Members and fields -/

/-- No union among the members, and no two of one kind without a name. -/
def membersFit (members : List Shape) : Bool :=
  let kinds := members.map Shape.kind
  !kinds.contains .union && decide (kinds.filter (!·.isNamed)).Nodup

/-- Different names, also from the aliases of the fields before. -/
def fieldNamesFit (seen : List String) : List (String × List String) → Bool
  | [] => true
  | (name, others) :: fields =>
    name ∉ seen && fieldNamesFit (name :: others ++ seen) fields

/-- The aliases of a field. -/
def fieldAliases (attrs : List (String × Json)) : List String :=
  (((Json.find? "aliases" attrs).bind Json.arr?).getD []).filterMap Json.str?

/-! ## Objects -/

/-- A reading that still needs the enclosing namespace. -/
abbrev Reading (α : Type) := Option String → Read α

/-- The readings of the attributes that hold schemas. -/
structure Parts where
  type : Option (Json × Reading Shape)
  items : Option (Json × Reading Shape)
  values : Option (Json × Reading Shape)
  fields : Option (Reading (List (Field Shape × List String)))

/-- A record with its fields. -/
def newRecord (attrs : List (String × Json)) (parts : Parts) : Reading Shape :=
  fun enclosing => do
    let n ← demandSome (definedName attrs enclosing)
    let others ← demandSome (aliases attrs n)
    let readAll ← demandSome parts.fields
    openRecord n others
    let fields ← readAll n.space
    demand (fieldNamesFit [] (fields.map fun f => (f.1.name, f.2)))
    let shape := Shape.record n (fields.map Prod.fst)
    complete n others shape
    return shape

def readRecord (attrs : List (String × Json)) (parts : Parts) : Reading Shape :=
  fun enclosing => do
    match ← seen? "fields" "record" attrs enclosing with
    | some s => return s
    | none => newRecord attrs parts enclosing

/-- The shape by the `type` attribute alone. -/
def plainShape (attrs : List (String × Json)) (parts : Parts) : Reading Shape :=
  fun enclosing => do
    let type ← demandSome parts.type
    match type.1 with
    | .str "record" => readRecord attrs parts enclosing
    | .str "enum" => readEnum attrs enclosing
    | .str "fixed" => readFixed attrs enclosing
    | .str "array" => return .array (← (← demandSome parts.items).2 enclosing)
    | .str "map" => return .map (← (← demandSome parts.values).2 enclosing)
    | _ => type.2 enclosing

/-- The type that a logical type annotates, which has to be of one of the kinds that
carry it. -/
def underlying (carriers : List Kind) (attrs : List (String × Json)) (parts : Parts) :
    Reading Shape :=
  fun enclosing => do
    let type ← demandSome parts.type
    let shape ←
      match type.1 with
      | .str "fixed" => readFixed attrs enclosing
      | _ => type.2 enclosing
    if shape.kind ∈ carriers then return shape
    else throw (.notCarried (← demandSome (typeWord type.1)))

/-- A reading in whose place a type word is read, where a type in it, at any depth, does
not carry its logical type. -/
def orTypeWord (r : Read Shape) (enclosing : Option String) : Read Shape :=
  tryCatch r fun refusal =>
    match refusal with
    | .notCarried word => reference word enclosing
    | .malformed => refuse

/-- The shape that the attributes of an object describe. A logical type on a carrier
that is not its own is refused, or dropped and the type word read again. -/
def objectShape (attrs : List (String × Json)) (parts : Parts) : Reading Shape :=
  fun enclosing =>
    match Json.find? "logicalType" attrs with
    | none => plainShape attrs parts enclosing
    | some (.str "decimal") => do
      let shape ← underlying [.bytes, .fixed] attrs parts enclosing
      let precision ← demandSome (precision? attrs)
      demandSome (decimalOn? shape precision)
    | some (.str "uuid") => do
      let _ ← underlying [.string] attrs parts enclosing
      return .plain .uuid
    | some (.str "duration") => do
      let _ ← underlying [.fixed] attrs parts enclosing
      return .plain .duration
    | some (.str logical) =>
      match droppable? logical with
      | none => plainShape attrs parts enclosing
      | some (carrier, kind) =>
        orTypeWord (do let _ ← underlying [carrier] attrs parts enclosing; return .plain kind)
          enclosing
    | some _ => refuse

/-! ## Documents -/

mutual

/-- The shape that a value describes inside a namespace. -/
def read (v : Json) (enclosing : Option String) : Read Shape :=
  match v with
  | .str word => reference word enclosing
  | .arr members => do
    let shapes ← readMembers members enclosing
    demand (membersFit shapes)
    return .union shapes
  | .obj attrs =>
    objectShape attrs
      ⟨readAttr "type" attrs, readAttr "items" attrs, readAttr "values" attrs, readFieldsAttr attrs⟩
      enclosing
  | _ => refuse

def readMembers (members : List Json) (enclosing : Option String) : Read (List Shape) :=
  match members with
  | [] => return []
  | v :: rest => do
    let s ← read v enclosing
    return s :: (← readMembers rest enclosing)

/-- The value of an attribute, with its reading as a shape. -/
def readAttr (key : String) (attrs : List (String × Json)) : Option (Json × Reading Shape) :=
  match attrs with
  | [] => none
  | (k, v) :: rest => if k = key then some (v, read v) else readAttr key rest

/-- The reading of the `fields` attribute, if it is an array. -/
def readFieldsAttr (attrs : List (String × Json)) :
    Option (Reading (List (Field Shape × List String))) :=
  match attrs with
  | [] => none
  | (k, v) :: rest =>
    if k = "fields" then
      match v with
      | .arr fields => some (readFields fields)
      | _ => none
    else readFieldsAttr rest

/-- The fields of a record with their aliases; what is no object is passed over. -/
def readFields (fields : List Json) (enclosing : Option String) :
    Read (List (Field Shape × List String)) :=
  match fields with
  | [] => return []
  | .obj attrs :: rest => do
    let name ← demandSome ((Json.find? "name" attrs).bind Json.str?)
    demand (isSymbol name)
    let shape ← objectShape attrs
      ⟨readAttr "type" attrs, readAttr "items" attrs, readAttr "values" attrs, readFieldsAttr attrs⟩
      enclosing
    let default := Json.find? "default" attrs
    let names ← get
    demand (default.all (fitsField names.completed shape))
    return (⟨name, shape, default⟩, fieldAliases attrs) :: (← readFields rest enclosing)
  | _ :: rest => readFields rest enclosing

end

/-- Whether the strict reading accepts a document. -/
def accepts (v : Json) : Bool := ((read v none).run ⟨[], []⟩).1.isOk

end Avro
end Restorable
